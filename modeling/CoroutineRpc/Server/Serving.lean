import CoroutineRpc.Server.Binding

/-! What the server holds. A number that it holds belongs to a socket of `m_socks`, to a task that
accepts, or to a client whose handler has not ended, and each client has exactly one handler. -/
namespace CoroutineRpc.Server.TcpServer
open Coroutine World

variable {κ : Type} [DecidableEq κ]

/-- The handler of the client has not ended. -/
def Unfinished (s : TcpServer κ) (c : κ) : Prop :=
  s.handler c = .scheduled ∨ s.handler c = .running

/-- The server and its clients, while `rest` is still to be let go of. -/
structure Serving (rest : List κ) (s : TcpServer κ) : Prop where
  sound : Sound s.world
  object : ∀ c, c ∈ s.socks ∨ s.used c = true → (s.world.object c).isSome = true
  holder : ∀ c fd, s.world.held c = some fd →
    (c ∈ s.socks ∨ s.used c = true) ∨ c ∈ rest ∨ s.Unfinished c
  client : ∀ c, s.Unfinished c →
    (∃ fd, s.world.held c = some fd) ∧ c ∉ s.socks ∧ s.used c = false ∧ c ∉ rest
  once : ∀ c, c ∈ s.handed ↔ s.handler c ≠ .unborn
  nodup : s.handed.Nodup

theorem serving_default : Serving [] ({} : TcpServer κ) := by
  refine ⟨sound_default, ?_, ?_, ?_, ?_, List.nodup_nil⟩
  · rintro c (hc | hc)
    · cases hc
    · cases hc
  · intro c fd hc
    cases hc
  · rintro c (hc | hc)
    · cases hc
    · cases hc
  · intro c
    exact ⟨fun hc => absurd hc List.not_mem_nil, fun hc => absurd rfl hc⟩

private theorem used_iff (s : TcpServer κ) (c : κ) :
    s.used c = true ↔ some c ∈ s.loops.map Loop.sock := by
  simp only [used, List.any_eq_true, beq_iff_eq, List.mem_map]

omit [DecidableEq κ] in
/-- A task that goes on with its socket. -/
theorem map_sock_set {loops : List (Loop κ)} {n : Nat} {l l' : Loop κ} (h : loops[n]? = some l)
    (hsock : l'.sock = l.sock) : (loops.set n l').map Loop.sock = loops.map Loop.sock := by
  obtain ⟨hn, rfl⟩ := List.getElem?_eq_some_iff.mp h
  rw [List.map_set, hsock]
  have hlength : n < (loops.map Loop.sock).length := by simpa using hn
  rw [← List.getElem_map Loop.sock (h := hlength), List.set_getElem_self]

omit [DecidableEq κ] in
/-- A task that ends lets go of one socket at most. -/
private theorem mem_sock_set {loops : List (Loop κ)} {n : Nat} {l : Loop κ} (h : loops[n]? = some l)
    {c : κ} : (some c ∈ (loops.set n .ended).map Loop.sock → some c ∈ loops.map Loop.sock) ∧
      (some c ∈ loops.map Loop.sock → l.sock = some c ∨
        some c ∈ (loops.set n .ended).map Loop.sock) := by
  obtain ⟨hn, rfl⟩ := List.getElem?_eq_some_iff.mp h
  constructor
  · intro hc
    obtain ⟨x, hx, hsock⟩ := List.mem_map.mp hc
    rcases List.mem_or_eq_of_mem_set hx with hx | rfl
    · exact List.mem_map.mpr ⟨x, hx, hsock⟩
    · cases hsock
  · intro hc
    obtain ⟨x, hx, hsock⟩ := List.mem_map.mp hc
    obtain ⟨m, hm, rfl⟩ := List.mem_iff_getElem.mp hx
    rcases eq_or_ne m n with rfl | hne
    · exact Or.inl hsock
    · refine Or.inr (List.mem_map.mpr ⟨loops[m], ?_, hsock⟩)
      refine List.mem_iff_getElem.mpr ⟨m, by simpa using hm, ?_⟩
      exact List.getElem_set_ne (Ne.symm hne) _

section Steps
variable {s t : TcpServer κ} {rest : List κ} {k : Settable} {hookEnable : Bool}

/-- Only what the objects hold, who refers to them and the clients matter. -/
theorem Serving.congr (h : Serving rest s) (hworld : t.world = s.world) (hsocks : t.socks = s.socks)
    (hloops : t.loops.map Loop.sock = s.loops.map Loop.sock) (hhandler : t.handler = s.handler)
    (hhanded : t.handed = s.handed) : Serving rest t := by
  have hused : ∀ c, t.used c = s.used c := by
    intro c
    rw [Bool.eq_iff_iff, used_iff, used_iff, hloops]
  have hunfinished : ∀ c, t.Unfinished c ↔ s.Unfinished c := by
    intro c
    rw [Unfinished, Unfinished, hhandler]
  refine ⟨?_, ?_, ?_, ?_, ?_, ?_⟩
  · rw [hworld]
    exact h.sound
  · intro c hc
    rw [hsocks, hused] at hc
    rw [hworld]
    exact h.object c hc
  · intro c fd hc
    rw [hworld] at hc
    rw [hsocks, hused, hunfinished]
    exact h.holder c fd hc
  · intro c hc
    rw [hworld, hsocks, hused]
    exact h.client c ((hunfinished c).mp hc)
  · rw [hhanded, hhandler]
    exact h.once
  · rw [hhanded]
    exact h.nodup

/-- An object that no client is has changed. -/
theorem Serving.change (h : Serving rest s) {c : κ} {v : World Unit κ} (hv : Sound v)
    (hat : OnlyAt c s.world v) (hidle : ¬ s.Unfinished c)
    (hobject : c ∈ s.socks ∨ s.used c = true → (v.object c).isSome = true)
    (hheld : ∀ fd, v.held c = some fd → (c ∈ s.socks ∨ s.used c = true) ∨ c ∈ rest) :
    Serving rest { s with world := v } := by
  refine ⟨hv, ?_, ?_, ?_, h.once, h.nodup⟩
  · intro d hd
    rcases eq_or_ne d c with rfl | hne
    · exact hobject hd
    · exact (congrArg Option.isSome (hat.object d hne)).trans (h.object d hd)
  · intro d fd hd
    rcases eq_or_ne d c with rfl | hne
    · rcases hheld fd hd with href | hrest
      · exact Or.inl href
      · exact Or.inr (Or.inl hrest)
    · exact h.holder d fd ((hat.held hne).symm.trans hd)
  · intro d hd
    have hne : d ≠ c := by
      rintro rfl
      exact hidle hd
    obtain ⟨⟨fd, hfd⟩, hrest⟩ := h.client d hd
    exact ⟨⟨fd, (hat.held hne).trans hfd⟩, hrest⟩

/-- What `rest` holds beside is that the object is to be let go of. -/
theorem Serving.forget {c : κ} (h : Serving (c :: rest) s)
    (hc : ∀ fd, s.world.held c = some fd → c ∈ s.socks ∨ s.used c = true) : Serving rest s := by
  refine ⟨h.sound, h.object, ?_, ?_, h.once, h.nodup⟩
  · intro d fd hd
    rcases h.holder d fd hd with href | hrest | hopen
    · exact Or.inl href
    · rcases List.mem_cons.mp hrest with rfl | hrest
      · exact Or.inl (hc fd hd)
      · exact Or.inr (Or.inl hrest)
    · exact Or.inr (Or.inr hopen)
  · intro d hd
    obtain ⟨hheld, hsocks, hused, hrest⟩ := h.client d hd
    exact ⟨hheld, hsocks, hused, fun hmem => hrest (List.mem_cons_of_mem _ hmem)⟩

/-- What letting go of some sockets leaves. -/
structure Unreferenced (cs : List κ) (s t : TcpServer κ) : Prop where
  same : t = { s with world := t.world }
  held : ∀ c, t.world.held c = if c ∈ cs ∧ s.used c = false then none else s.world.held c
  foreign : t.world.foreign = s.world.foreign

private theorem unref_some {cs : List κ} (h : Serving cs s) (hsocks : ∀ c ∈ cs, c ∉ s.socks)
    (ht : unref k hookEnable s cs = some t) : Serving [] t ∧ Unreferenced cs s t := by
  induction cs generalizing s with
  | nil =>
    obtain rfl := Option.some.inj ht
    exact ⟨h, ⟨rfl, fun c => by simp, rfl⟩⟩
  | cons c cs ih =>
    have hc : c ∉ s.socks := hsocks c List.mem_cons_self
    have hcs : ∀ d ∈ cs, d ∉ s.socks := fun d hd => hsocks d (List.mem_cons_of_mem c hd)
    unfold unref at ht
    split at ht
    · next hskip =>
      rw [Bool.or_eq_true] at hskip
      have hforget : ∀ fd, s.world.held c = some fd → c ∈ s.socks ∨ s.used c = true := by
        intro fd hfd
        rcases hskip with hused | hnone
        · exact Or.inr hused
        · rw [World.held, Option.isNone_iff_eq_none.mp hnone] at hfd
          cases hfd
      obtain ⟨hserving, hun⟩ := ih (h.forget hforget) hcs ht
      refine ⟨hserving, ⟨hun.same, fun d => ?_, hun.foreign⟩⟩
      rw [hun.held d]
      by_cases hd : d ∈ cs
      · simp [hd]
      · rcases eq_or_ne d c with rfl | hne
        · rcases hskip with hused | hnone
          · simp [hd, hused]
          · have hheld : s.world.held d = none := by
              rw [World.held, Option.isNone_iff_eq_none.mp hnone]
              rfl
            simp [hd, hheld]
        · simp [hd, hne]
    · next hdestroy =>
      rw [Bool.or_eq_true, not_or, Bool.not_eq_true] at hdestroy
      obtain ⟨v, hv, ht⟩ := Option.bind_eq_some_iff.mp ht
      obtain ⟨hsound, hat, hgone⟩ := destroy_some h.sound hv
      have hnone : v.held c = none := by
        rw [World.held, hgone]
        rfl
      have hidle : ¬ s.Unfinished c := fun hopen =>
        (h.client c hopen).2.2.2 List.mem_cons_self
      have hchange : Serving (c :: cs) { s with world := v } := by
        refine h.change hsound hat hidle ?_ ?_
        · rintro (hmem | hused)
          · exact absurd hmem hc
          · rw [hdestroy.1] at hused
            cases hused
        · intro fd hfd
          rw [hnone] at hfd
          cases hfd
      have hforget : ∀ fd, v.held c = some fd → c ∈ s.socks ∨ s.used c = true := by
        intro fd hfd
        rw [hnone] at hfd
        cases hfd
      obtain ⟨hserving, hun⟩ := ih (hchange.forget hforget) hcs ht
      refine ⟨hserving, ⟨hun.same, fun d => ?_, hun.foreign.trans hat.foreign⟩⟩
      have hused : ∀ d, ({ s with world := v } : TcpServer κ).used d = s.used d := fun _ => rfl
      rw [hun.held d, hused]
      rcases eq_or_ne d c with rfl | hne
      · simp [hnone, hdestroy.1]
      · simp [hne, hat.held hne]

/-- `m_socks.clear()`; the sockets that tasks refer to stay open. -/
theorem clear_some (h : Serving [] s) (ht : s.clear k hookEnable = some t) :
    Serving [] t ∧ Unreferenced s.socks { s with socks := [] } t := by
  have hrest : Serving s.socks { s with socks := [] } := by
    refine ⟨h.sound, ?_, ?_, ?_, h.once, h.nodup⟩
    · rintro c (hc | hc)
      · cases hc
      · exact h.object c (Or.inr hc)
    · intro c fd hc
      rcases h.holder c fd hc with (hmem | hused) | hrest | hopen
      · exact Or.inr (Or.inl hmem)
      · exact Or.inl (Or.inr hused)
      · cases hrest
      · exact Or.inr (Or.inr hopen)
    · intro c hc
      obtain ⟨hheld, hsocks, hused, -⟩ := h.client c hc
      exact ⟨hheld, List.not_mem_nil, hused, hsocks⟩
  exact unref_some hrest (fun c _ => List.not_mem_nil) ht

/-- The sockets that the loop of `bind` has made are listening sockets of the server. -/
theorem bindAll_serving {ssl : Bool} {tries : List (BindTry κ)} {v : World Unit κ} {socks : List κ}
    {fails : List SockAddr} (h : Serving [] s)
    (hv : s.world.bindAll k ssl hookEnable tries = some (v, socks, fails)) :
    Serving [] { s with world := v, socks := s.socks ++ socks, ssl := ssl } := by
  obtain ⟨hsound, happ, -⟩ := bindAll_some h.sound hv
  have hold : ∀ c, (s.world.object c).isSome = true → c ∉ socks := by
    intro c hc hmem
    rw [happ.fresh c hmem] at hc
    cases hc
  have hheld : ∀ c, c ∉ socks → v.held c = s.world.held c := fun c hc =>
    congrArg (fun x : Option Socket => x.bind Socket.sock) (happ.object c hc)
  refine ⟨hsound, ?_, ?_, ?_, h.once, h.nodup⟩
  · rintro c (hc | hc)
    · rcases List.mem_append.mp hc with hc | hc
      · have hsome := h.object c (Or.inl hc)
        exact (congrArg Option.isSome (happ.object c (hold c hsome))).trans hsome
      · obtain ⟨fd, hfd⟩ := happ.holds c hc
        dsimp only
        cases hobject : v.object c with
        | none =>
          rw [World.held, hobject] at hfd
          cases hfd
        | some o => rfl
    · have hsome := h.object c (Or.inr hc)
      exact (congrArg Option.isSome (happ.object c (hold c hsome))).trans hsome
  · intro c fd hc
    by_cases hmem : c ∈ socks
    · exact Or.inl (Or.inl (List.mem_append_right _ hmem))
    · rcases h.holder c fd ((hheld c hmem).symm.trans hc) with (hc' | hused) | hrest | hopen
      · exact Or.inl (Or.inl (List.mem_append_left _ hc'))
      · exact Or.inl (Or.inr hused)
      · cases hrest
      · exact Or.inr (Or.inr hopen)
  · intro c hc
    obtain ⟨⟨fd, hfd⟩, hsocks, hused, hrest⟩ := h.client c hc
    have hnew : c ∉ socks := by
      intro hmem
      rw [World.held, happ.fresh c hmem] at hfd
      cases hfd
    refine ⟨⟨fd, (hheld c hnew).trans hfd⟩, ?_, hused, hrest⟩
    intro hmem
    rcases List.mem_append.mp hmem with hmem | hmem
    · exact hsocks hmem
    · exact hnew hmem

theorem bind_serving {ssl : Bool} {tries : List (BindTry κ)} {before fails : List SockAddr}
    (h : Serving [] s) (ht : s.bind k ssl hookEnable before tries = some (t, fails)) :
    Serving [] t := by
  obtain ⟨⟨v, socks, failed⟩, hv, ht⟩ := Option.bind_eq_some_iff.mp ht
  have hbound := bindAll_serving h hv
  dsimp only at ht
  split at ht
  · obtain ⟨rfl, -⟩ := Prod.mk.inj (Option.some.inj ht)
    exact hbound
  · obtain ⟨t', ht', heq⟩ := Option.map_eq_some_iff.mp ht
    obtain ⟨rfl, -⟩ := Prod.mk.inj heq
    exact (clear_some hbound ht').1

private theorem closeAll_serving {cs : List κ} (h : Serving [] s) (hcs : ∀ c ∈ cs, c ∈ s.socks)
    (ht : closeAll k hookEnable s cs = some t) :
    Serving [] t ∧ t.socks = s.socks ∧ t.handler = s.handler := by
  induction cs generalizing s with
  | nil =>
    obtain rfl := Option.some.inj ht
    exact ⟨h, rfl, rfl⟩
  | cons c cs ih =>
    obtain ⟨v, hv, ht⟩ := Option.bind_eq_some_iff.mp ht
    have hc : c ∈ s.socks := hcs c List.mem_cons_self
    have hsound := World.step_sound h.sound hv
    obtain ⟨o, -, hclose⟩ := Option.bind_eq_some_iff.mp hv
    have hchange : Serving [] { s with world := v } := by
      refine h.change hsound (onlyAt_close hclose) ?_ (fun _ => close_object hclose) ?_
      · intro hopen
        exact (h.client c hopen).2.1 hc
      · exact fun fd _ => Or.inl (Or.inl hc)
    exact ih (s := { s with world := v }) hchange (fun d hd => hcs d (List.mem_cons_of_mem c hd)) ht

private theorem stopTask_serving (h : Serving [] s) (ht : s.stopTask k hookEnable = some t) :
    Serving [] t := by
  unfold stopTask at ht
  split at ht
  · cases ht
  · obtain ⟨u, hu, ht⟩ := Option.bind_eq_some_iff.mp ht
    have hstopping : Serving [] { s with stopping := s.stopping - 1 } := h.congr rfl rfl rfl rfl rfl
    exact (clear_some (closeAll_serving hstopping (fun _ hc => hc) hu).1 ht).1

private theorem start_serving (h : Serving [] s) : Serving [] s.start := by
  unfold start
  split
  · have hused : ∀ c, ({ s with isStop := false, loops := s.loops ++ s.socks.map .atHead } :
        TcpServer κ).used c = true ↔ s.used c = true ∨ c ∈ s.socks := by
      intro c
      rw [used_iff, used_iff, List.map_append, List.mem_append]
      refine or_congr_right ?_
      simp [Loop.sock]
    refine ⟨h.sound, ?_, ?_, ?_, h.once, h.nodup⟩
    · intro c hc
      refine h.object c ?_
      rcases hc with hc | hc
      · exact Or.inl hc
      · exact ((hused c).mp hc).symm
    · intro c fd hc
      rcases h.holder c fd hc with (hmem | hmem) | hrest
      · exact Or.inl (Or.inl hmem)
      · exact Or.inl (Or.inr ((hused c).mpr (Or.inl hmem)))
      · exact Or.inr hrest
    · intro c hc
      obtain ⟨hheld, hsocks, hnot, hrest⟩ := h.client c hc
      refine ⟨hheld, hsocks, ?_, hrest⟩
      rw [← Bool.not_eq_true, hused, not_or, Bool.not_eq_true]
      exact ⟨hnot, hsocks⟩
  · exact h

private theorem turn_serving {n : Nat} (h : Serving [] s) (ht : s.turn k n hookEnable = some t) :
    Serving [] t := by
  unfold turn at ht
  split at ht
  · next c hloop =>
    split at ht
    · have hused : ∀ d, ({ s with loops := s.loops.set n .ended } : TcpServer κ).used d = true →
          s.used d = true := by
        intro d hd
        rw [used_iff] at hd ⊢
        exact (mem_sock_set hloop).1 hd
      have hkept : ∀ d, s.used d = true →
          d = c ∨ ({ s with loops := s.loops.set n .ended } : TcpServer κ).used d = true := by
        intro d hd
        rw [used_iff] at hd ⊢
        rcases (mem_sock_set hloop).2 hd with hsock | hd
        · exact Or.inl (Option.some.inj hsock).symm
        · exact Or.inr hd
      have hrest : Serving (if c ∈ s.socks then [] else [c])
          { s with loops := s.loops.set n .ended } := by
        refine ⟨h.sound, ?_, ?_, ?_, h.once, h.nodup⟩
        · intro d hd
          exact h.object d (hd.imp_right (hused d))
        · intro d fd hd
          rcases h.holder d fd hd with (hmem | hmem) | hrest | hopen
          · exact Or.inl (Or.inl hmem)
          · rcases hkept d hmem with rfl | hmem
            · by_cases hsocks : d ∈ s.socks
              · exact Or.inl (Or.inl hsocks)
              · rw [if_neg hsocks]
                exact Or.inr (Or.inl List.mem_cons_self)
            · exact Or.inl (Or.inr hmem)
          · cases hrest
          · exact Or.inr (Or.inr hopen)
        · intro d hd
          obtain ⟨hheld, hsocks, hnot, -⟩ := h.client d hd
          have hne : d ≠ c := by
            rintro rfl
            rw [← Bool.not_eq_true, used_iff] at hnot
            exact hnot (List.mem_map.mpr ⟨_, List.mem_of_getElem? hloop, rfl⟩)
          refine ⟨hheld, hsocks, ?_, ?_⟩
          · rw [← Bool.not_eq_true] at hnot ⊢
            exact fun hd => hnot (hused d hd)
          · split
            · exact List.not_mem_nil
            · rw [List.mem_singleton]
              exact hne
      dsimp only at ht
      split at ht
      · next hmem =>
        obtain rfl := Option.some.inj ht
        rwa [if_pos hmem] at hrest
      · next hmem =>
        rw [if_neg hmem] at hrest
        refine (unref_some hrest ?_ ht).1
        intro d hd
        rw [List.mem_singleton] at hd
        rwa [hd]
    · obtain ⟨o, -, rfl⟩ := Option.map_eq_some_iff.mp ht
      exact h.congr rfl rfl (map_sock_set hloop rfl) rfl rfl
  · cases ht

/-- A client that nobody refers to is handed to its handler. -/
theorem Serving.hand (h : Serving [] s) {c : κ} {v : World Unit κ} {fd : Nat}
    (hunborn : s.handler c = .unborn) (hunref : ¬ (c ∈ s.socks ∨ s.used c = true)) (hv : Sound v)
    (hat : OnlyAt c s.world v) (hheld : v.held c = some fd) :
    Serving [] { s with
      world := v, handler := Function.update s.handler c .scheduled, handed := c :: s.handed } := by
  have hother : ∀ d, d ≠ c → Function.update s.handler c .scheduled d = s.handler d :=
    fun d hd => Function.update_of_ne hd ..
  have hself : Function.update s.handler c .scheduled c = .scheduled := Function.update_self ..
  have hnot : c ∉ s.handed := fun hmem => (h.once c).mp hmem hunborn
  rw [not_or, Bool.not_eq_true] at hunref
  refine ⟨hv, ?_, ?_, ?_, ?_, List.nodup_cons.mpr ⟨hnot, h.nodup⟩⟩
  · intro d hd
    have hne : d ≠ c := by
      rintro rfl
      rcases hd with hd | hd
      · exact hunref.1 hd
      · exact Bool.noConfusion (hunref.2.symm.trans hd)
    exact (congrArg Option.isSome (hat.object d hne)).trans (h.object d hd)
  · intro d fd' hd
    rcases eq_or_ne d c with rfl | hne
    · exact Or.inr (Or.inr (Or.inl hself))
    · rcases h.holder d fd' ((hat.held hne).symm.trans hd) with href | hrest | hopen
      · exact Or.inl href
      · cases hrest
      · refine Or.inr (Or.inr ?_)
        simp only [Unfinished, hother d hne]
        exact hopen
  · intro d hd
    rcases eq_or_ne d c with rfl | hne
    · exact ⟨⟨fd, hheld⟩, hunref.1, hunref.2, List.not_mem_nil⟩
    · simp only [Unfinished, hother d hne] at hd
      obtain ⟨⟨fd', hfd'⟩, hrest⟩ := h.client d hd
      exact ⟨⟨fd', (hat.held hne).trans hfd'⟩, hrest⟩
  · intro d
    dsimp only
    rcases eq_or_ne d c with rfl | hne
    · rw [hself]
      exact iff_of_true List.mem_cons_self (by decide)
    · rw [hother d hne, List.mem_cons, or_iff_right hne]
      exact h.once d

private theorem accepted_serving {n : Nat} {client : κ} {newsock : Option Nat} {names : Names}
    {handshake optionOk : Bool} (h : Serving [] s)
    (ht : s.accepted k n client hookEnable newsock names handshake optionOk = some t) :
    Serving [] t := by
  unfold accepted at ht
  split at ht
  · next c o hloop =>
    split at ht
    · cases ht
    · next hfree =>
      rw [Bool.or_eq_true, not_or, Bool.not_eq_true, Bool.not_eq_true, bne_eq_false_iff_eq] at hfree
      obtain ⟨hgone, hunborn⟩ := hfree
      have hidle : ¬ s.Unfinished client := by
        rintro (hsched | hrun)
        · rw [hunborn] at hsched
          cases hsched
        · rw [hunborn] at hrun
          cases hrun
      have hunref : ¬ (client ∈ s.socks ∨ s.used client = true) := by
        intro href
        rw [h.object client href] at hgone
        cases hgone
      have hnone : s.world.held client = none := by
        rw [Option.isSome_eq_false_iff, Option.isNone_iff_eq_none] at hgone
        rw [World.held, hgone]
        rfl
      obtain ⟨v, hv, ht⟩ := Option.bind_eq_some_iff.mp ht
      have hsound := h.sound.accepted hnone hv
      have hat := onlyAt_accepted hv
      have hloops : (s.loops.set n (.atHead c)).map Loop.sock = s.loops.map Loop.sock :=
        map_sock_set hloop rfl
      dsimp only at ht
      split at ht
      · next hrefused =>
        obtain rfl := Option.some.inj ht
        have hchange : Serving [] { s with world := v } := by
          refine h.change hsound hat hidle (fun href => absurd href hunref) ?_
          intro fd hfd
          rw [hrefused] at hfd
          cases hfd
        exact hchange.congr rfl rfl hloops rfl rfl
      · next fd hfd =>
        obtain ⟨v', hv', rfl⟩ := Option.map_eq_some_iff.mp ht
        obtain ⟨d, hd, rfl⟩ := perform_some hv'
        have hsound' := hsound.touch (Descriptor.tracked_step k (hsound.tracked fd) hd)
          (Descriptor.file_kept k hd (by rintro _ ⟨⟩) (by rintro _ _ ⟨⟩) (by rintro _ ⟨⟩))
        exact (h.hand hunborn hunref hsound' ⟨hat.object, hat.foreign, hat.waiting⟩ hfd).congr rfl
          rfl hloops rfl rfl
  · cases ht

private theorem serve_serving {c : κ} (h : Serving [] s) (hc : s.handler c = .scheduled) :
    Serving [] { s with handler := Function.update s.handler c .running } := by
  have hother : ∀ d, d ≠ c → Function.update s.handler c .running d = s.handler d :=
    fun d hd => Function.update_of_ne hd ..
  have hself : Function.update s.handler c .running c = .running := Function.update_self ..
  have hsame : ∀ d, ({ s with handler := Function.update s.handler c .running } :
      TcpServer κ).Unfinished d ↔ s.Unfinished d := by
    intro d
    rcases eq_or_ne d c with rfl | hne
    · exact iff_of_true (Or.inr hself) (Or.inl hc)
    · simp only [Unfinished, hother d hne]
  refine ⟨h.sound, h.object, ?_, ?_, ?_, h.nodup⟩
  · intro d fd hd
    rw [hsame]
    exact h.holder d fd hd
  · intro d hd
    exact h.client d ((hsame d).mp hd)
  · intro d
    dsimp only
    rw [h.once d]
    rcases eq_or_ne d c with rfl | hne
    · rw [hself, hc]
      decide
    · rw [hother d hne]

private theorem finish_serving {c : κ} {v : World Unit κ} (h : Serving [] s)
    (hc : s.handler c = .running) (hv : s.world.step k (.destroy c hookEnable) = some v) :
    Serving [] { s with world := v, handler := Function.update s.handler c .ended } := by
  obtain ⟨hsound, hat, hgone⟩ := destroy_some h.sound hv
  obtain ⟨-, hsocks, hused, -⟩ := h.client c (Or.inr hc)
  have hother : ∀ d, d ≠ c → Function.update s.handler c .ended d = s.handler d :=
    fun d hd => Function.update_of_ne hd ..
  have hself : Function.update s.handler c .ended c = .ended := Function.update_self ..
  refine ⟨hsound, ?_, ?_, ?_, ?_, h.nodup⟩
  · intro d hd
    have hne : d ≠ c := by
      rintro rfl
      rcases hd with hd | hd
      · exact hsocks hd
      · exact Bool.noConfusion (hused.symm.trans hd)
    exact (congrArg Option.isSome (hat.object d hne)).trans (h.object d hd)
  · intro d fd hd
    have hne : d ≠ c := by
      rintro rfl
      rw [World.held, hgone] at hd
      cases hd
    simp only [Unfinished, hother d hne]
    exact h.holder d fd ((hat.held hne).symm.trans hd)
  · intro d hd
    have hne : d ≠ c := by
      rintro rfl
      simp only [Unfinished, hself] at hd
      rcases hd with hd | hd
      · cases hd
      · cases hd
    simp only [Unfinished, hother d hne] at hd
    obtain ⟨⟨fd, hfd⟩, hrest⟩ := h.client d hd
    exact ⟨⟨fd, (hat.held hne).trans hfd⟩, hrest⟩
  · intro d
    dsimp only
    rw [h.once d]
    rcases eq_or_ne d c with rfl | hne
    · rw [hself, hc]
      decide
    · rw [hother d hne]

theorem step_serving {a : ServerAction κ} (h : Serving [] s) (hstep : step k s a = some t) :
    Serving [] t := by
  cases a with
  | bind ssl hookEnable before tries =>
    obtain ⟨⟨u, fails⟩, hu, rfl⟩ := Option.map_eq_some_iff.mp hstep
    exact bind_serving h hu
  | start =>
    obtain rfl := Option.some.inj hstep
    exact start_serving h
  | stop =>
    obtain rfl := Option.some.inj hstep
    exact h.congr rfl rfl rfl rfl rfl
  | stopTask hookEnable => exact stopTask_serving h hstep
  | turn n hookEnable => exact turn_serving h hstep
  | accepted n client hookEnable newsock names handshake optionOk => exact accepted_serving h hstep
  | serve c =>
    dsimp only [step] at hstep
    split at hstep
    · next hc =>
      obtain rfl := Option.some.inj hstep
      exact serve_serving h hc
    · cases hstep
  | finish c hookEnable =>
    dsimp only [step] at hstep
    split at hstep
    · next hc =>
      obtain ⟨v, hv, rfl⟩ := Option.map_eq_some_iff.mp hstep
      exact finish_serving h hc hv
    · cases hstep
  | other fd call =>
    obtain ⟨v, hv, rfl⟩ := Option.map_eq_some_iff.mp hstep
    have hobject : v.object = s.world.object := other_object hv
    have hheld : v.held = s.world.held := by
      funext c
      rw [World.held, World.held, hobject]
    refine ⟨h.sound.other hv, ?_, ?_, ?_, h.once, h.nodup⟩
    · rw [hobject]
      exact h.object
    · rw [hheld]
      exact h.holder
    · intro c hc
      rw [hheld]
      exact h.client c hc

/-- Every descriptor that the server has opened is in use: by a listening socket that `m_socks` or a
task refers to, or by a client whose handler has not ended. Each client is handed over once and has
a descriptor of its own until its handler ends. -/
structure InUse (s : TcpServer κ) : Prop where
  owned : Owned s.world
  holder : ∀ c fd, s.world.held c = some fd →
    (c ∈ s.socks ∨ s.used c = true) ∨ s.Unfinished c
  client : ∀ c, s.Unfinished c →
    (∃ fd, s.world.held c = some fd) ∧ c ∉ s.socks ∧ s.used c = false
  once : ∀ c, c ∈ s.handed ↔ s.handler c ≠ .unborn
  nodup : s.handed.Nodup

private theorem Serving.inUse (h : Serving [] s) : InUse s := by
  refine ⟨h.sound.toOwned, ?_, ?_, h.once, h.nodup⟩
  · intro c fd hc
    rcases h.holder c fd hc with href | hrest | hopen
    · exact Or.inl href
    · cases hrest
    · exact Or.inr hopen
  · intro c hc
    obtain ⟨hheld, hsocks, hused, -⟩ := h.client c hc
    exact ⟨hheld, hsocks, hused⟩

/-- In every run of the server nothing is leaked and nobody's descriptor is closed. What runs between
two suspensions is one step, on one thread. -/
theorem always_in_use (k : Settable) (as : List (ServerAction κ)) :
    Transition.Always (step k) InUse ({} : TcpServer κ) as :=
  (Transition.always_of_step (fun _ _ _ h hstep => step_serving h hstep) serving_default as).mono
    (fun _ h => h.inUse)

end Steps
end CoroutineRpc.Server.TcpServer
