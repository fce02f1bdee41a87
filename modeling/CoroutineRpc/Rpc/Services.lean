import CoroutineRpc.Rpc.Provider

/-! The table of services: what `NotifyService` enters into it. Both of its maps keep the first
entry for a name. -/
namespace CoroutineRpc.Rpc

/-- A service as its descriptor shows it: its name and its methods in order. -/
structure Service (Q R : Type) where
  name : ByteString
  methods : List (ByteString × Method Q R)

/-- `insert` of an `unordered_map`, which leaves a key that is there already. -/
def insertNew {V : Type} (m : AList (fun _ : ByteString => V)) (k : ByteString) (v : V) :
    AList (fun _ : ByteString => V) :=
  match m.lookup k with
  | some _ => m
  | none => m.insert k v

variable {Q R : Type}

/-- `service_info.m_methodMap` after the loop over the methods. -/
def Service.methodMap (s : Service Q R) : AList (fun _ : ByteString => Method Q R) :=
  s.methods.foldl (fun m x => insertNew m x.1 x.2) ∅

namespace Provider

def notifyService (p : Provider Q R) (s : Service Q R) : Provider Q R :=
  { p with serviceMap := insertNew p.serviceMap s.name s.methodMap }

/-- A new provider to which these services are announced, one after the other. -/
def offering (services : List (Service Q R)) : Provider Q R :=
  services.foldl notifyService {}

/-- What the first service of that name answers with its first method of that name. -/
def firstAnswer (services : List (Service Q R)) (d : Dispatch) : Option ByteString := do
  let service ← services.find? (fun s => s.name = d.serviceName)
  let method ← service.methods.find? (fun x => x.1 = d.methodName)
  let request ← method.2.parseRequest d.args
  let response ← method.2.call request
  sendRpcResponse method.2 response

end Provider

private theorem insertNew_lookup {V : Type} (m : AList (fun _ : ByteString => V))
    (k k' : ByteString) (v : V) : (insertNew m k v).lookup k' =
      (m.lookup k').or (if k = k' then some v else none) := by
  unfold insertNew
  by_cases hk : k = k'
  · subst hk
    rw [if_pos rfl]
    cases hold : m.lookup k with
    | some old => exact hold
    | none =>
      rw [AList.lookup_insert]
      rfl
  · rw [if_neg hk, Option.or_none]
    cases m.lookup k with
    | some old => rfl
    | none => exact AList.lookup_insert_ne (fun he => hk he.symm)

/-- After all entries a key has what it had before, or the first entry for it. -/
theorem insertNew_all {A V : Type} (key : A → ByteString) (value : A → V) (entries : List A)
    (m : AList (fun _ : ByteString => V)) (k : ByteString) :
    (entries.foldl (fun m a => insertNew m (key a) (value a)) m).lookup k =
      (m.lookup k).or ((entries.find? (fun a => key a = k)).map value) := by
  induction entries generalizing m with
  | nil => rw [List.foldl_nil, List.find?_nil, Option.map_none, Option.or_none]
  | cons a entries ih =>
    rw [List.foldl_cons, ih, insertNew_lookup, Option.or_assoc]
    by_cases hk : key a = k
    · rw [if_pos hk, List.find?_cons_of_pos (by simpa using hk)]
      rfl
    · rw [if_neg hk, List.find?_cons_of_neg (by simpa using hk)]
      rfl

private theorem Service.methodMap_lookup (s : Service Q R) (name : ByteString) :
    s.methodMap.lookup name = (s.methods.find? (fun x => x.1 = name)).map Prod.snd := by
  rw [methodMap, insertNew_all Prod.fst Prod.snd]
  rfl

namespace Provider

/-- The services change nothing but the table. -/
theorem offering_serviceMap (services : List (Service Q R)) (p : Provider Q R) :
    services.foldl notifyService p = { p with
      serviceMap := services.foldl (fun m s => insertNew m s.name s.methodMap) p.serviceMap } := by
  induction services generalizing p with
  | nil => rfl
  | cons s services ih =>
    rw [List.foldl_cons, ih]
    rfl

private theorem offering_lookup (services : List (Service Q R)) (name : ByteString) :
    (offering services).serviceMap.lookup name =
      (services.find? (fun s => s.name = name)).map Service.methodMap := by
  rw [offering, offering_serviceMap]
  dsimp only
  rw [insertNew_all Service.name Service.methodMap]
  rfl

theorem offering_answer (services : List (Service Q R)) (d : Dispatch) :
    (offering services).answer d = firstAnswer services d := by
  rw [answer, firstAnswer, offering_lookup]
  cases services.find? (fun s => s.name = d.serviceName) with
  | none => rfl
  | some service =>
    simp only [Option.map_some, Option.bind_eq_bind, Option.bind_some, service.methodMap_lookup]
    cases service.methods.find? (fun x => x.1 = d.methodName) with
    | none => rfl
    | some method => rfl

end Provider
end CoroutineRpc.Rpc
