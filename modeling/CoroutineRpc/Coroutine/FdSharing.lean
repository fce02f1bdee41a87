import CoroutineRpc.Coroutine.FdManager

/-! When `FdManager` hands out one context for each descriptor: a call that makes one has to find
its slot as empty as it was under the shared lock. -/
namespace CoroutineRpc.Coroutine

private theorem index_injective : Function.Injective index := by
  intro fd fd' h
  have hlow := Int32.le_toInt fd
  have hhigh := Int32.toInt_lt fd
  have hlow' := Int32.le_toInt fd'
  have hhigh' := Int32.toInt_lt fd'
  unfold index uint64 at h
  exact Int32.toInt_inj.mp (by omega)

private theorem index_of_nonneg {fd : Int32} (h : 0 ≤ fd.toInt) : (index fd : Int) = fd.toInt := by
  have hhigh := Int32.toInt_lt fd
  unfold index uint64
  omega

namespace FdManager
variable {ι : Type}

/-- The slots hold exactly what has been returned since the last `del`. -/
structure Kept (s : FdManager ι) : Prop where
  initial : 64 ≤ s.datas.length
  held : ∀ fd o, s.datas[index fd]? = some (some o) ↔ o ∈ s.returned fd
  made : ∀ fd o, o ∈ s.returned fd → o < s.contexts.length
  creating : ∀ c fd, s.creating c = some fd → 0 ≤ fd.toInt
  grown : s.datas.length = s.largest
  inRange : s.outOfRange = false

private theorem Kept.shared {s : FdManager ι} (h : Kept s) : Shared s := by
  have hsame : ∀ fd o o', o ∈ s.returned fd → o' ∈ s.returned fd → o = o' := by
    intro fd o o' ho ho'
    have heq := ((h.held fd o).mpr ho).symm.trans ((h.held fd o').mpr ho')
    exact Option.some.inj (Option.some.inj heq)
  refine ⟨hsame, ?_, h.grown, h.inRange⟩
  intro fd o o' ho ho'
  rw [hsame fd o o' ho ho']

theorem kept_start : Kept ({} : FdManager ι) := by
  refine ⟨by simp, ?_, ?_, ?_, by simp, rfl⟩
  · intro fd o
    constructor
    · intro h
      have hmem := List.mem_of_getElem? h
      cases List.eq_of_mem_replicate hmem
    · intro h
      cases h
  · intro fd o ho
    cases ho
  · intro c fd hfd
    cases hfd

theorem resize_length (s : FdManager ι) (size : Nat) : (s.resize size).datas.length = size := by
  simp only [resize, List.length_append, List.length_take, List.length_replicate]
  omega

/-- The slots that are new hold nothing. -/
theorem resize_slot {s : FdManager ι} {size : Nat} (h : s.datas.length ≤ size) (j : Nat)
    (o : ObjectId) : (s.resize size).datas[j]? = some (some o) ↔ s.datas[j]? = some (some o) := by
  simp only [resize, List.take_of_length_le h, List.getElem?_append, List.getElem?_replicate]
  split
  · rfl
  · next hj =>
    rw [List.getElem?_eq_none (by omega)]
    split
    · exact ⟨fun heq => (by cases heq), fun heq => (by cases heq)⟩
    · rfl

theorem Kept.resize {s : FdManager ι} (h : Kept s) {size : Nat} (hup : s.datas.length ≤ size) :
    Kept (s.resize size) := by
  refine ⟨?_, ?_, h.made, h.creating, ?_, h.inRange⟩
  · rw [resize_length]
    exact h.initial.trans hup
  · intro fd o
    rw [resize_slot hup]
    exact h.held fd o
  · rw [resize_length]
    change _ = max s.largest size
    have hgrown := h.grown
    omega

/-- What `get` returns under either lock is what the slot holds. -/
theorem Kept.returns {s : FdManager ι} (h : Kept s) {fd : Int32} {slot : Option ObjectId}
    (hslot : s.datas[index fd]? = some slot) : Kept (s.returns fd slot) := by
  have hmem : ∀ fd' o, o ∈ (s.returns fd slot).returned fd' ↔ o ∈ s.returned fd' := by
    intro fd' o
    by_cases hfd : fd' = fd
    · subst hfd
      simp only [FdManager.returns, Function.update_self, List.mem_append, Option.mem_toList]
      refine or_iff_right_of_imp ?_
      rintro rfl
      exact (h.held fd' o).mp hslot
    · simp only [FdManager.returns, Function.update_of_ne hfd]
  refine ⟨h.initial, ?_, ?_, h.creating, h.grown, h.inRange⟩
  · intro fd' o
    rw [hmem]
    exact h.held fd' o
  · intro fd' o ho
    exact h.made fd' o ((hmem fd' o).mp ho)

/-- A slot that is not there needs no reset. -/
theorem del_eq (s : FdManager ι) (fd : Int32) : s.del fd = { s with
    returned := Function.update s.returned fd []
    datas := s.datas.set (index fd) none } := by
  unfold FdManager.del
  dsimp only
  split
  · next hlen => rw [List.set_eq_of_length_le hlen]
  · rfl

/-- One slot changes together with what is recorded for its descriptor. -/
theorem Kept.replace {s t : FdManager ι} (h : Kept s) {fd : Int32} {slot : Option ObjectId}
    {os : List ObjectId} (hdatas : t.datas = s.datas.set (index fd) slot)
    (hreturned : t.returned = Function.update s.returned fd os)
    (hslot : ∀ o, t.datas[index fd]? = some (some o) ↔ o ∈ os)
    (hmade : ∀ o ∈ os, o < t.contexts.length) (hcontexts : s.contexts.length ≤ t.contexts.length)
    (hcreating : ∀ c fd, t.creating c = some fd → 0 ≤ fd.toInt) (hlargest : t.largest = s.largest)
    (hrange : t.outOfRange = false) : Kept t := by
  refine ⟨?_, ?_, ?_, hcreating, ?_, hrange⟩
  · rw [hdatas, List.length_set]
    exact h.initial
  · intro fd' o
    by_cases hfd : fd' = fd
    · subst hfd
      rw [hslot, hreturned, Function.update_self]
    · have hindex : index fd ≠ index fd' := fun heq => hfd (index_injective heq.symm)
      rw [hdatas, List.getElem?_set_ne hindex, hreturned, Function.update_of_ne hfd]
      exact h.held fd' o
  · intro fd' o ho
    rw [hreturned] at ho
    by_cases hfd : fd' = fd
    · subst hfd
      rw [Function.update_self] at ho
      exact hmade o ho
    · rw [Function.update_of_ne hfd] at ho
      exact (h.made fd' o ho).trans_le hcontexts
  · rw [hdatas, List.length_set, hlargest]
    exact h.grown

theorem Kept.del {s : FdManager ι} (h : Kept s) (fd : Int32) : Kept (s.del fd) := by
  rw [del_eq]
  refine h.replace rfl rfl (fun o => ?_) (fun o ho => by cases ho) (Nat.le_refl _) h.creating rfl
    h.inRange
  dsimp only
  rw [List.getElem?_set]
  simp

theorem Kept.set {s : FdManager ι} (h : Kept s) (o : ObjectId) (setting : Setting) :
    Kept { s with contexts := s.contexts.modify o (fun ctx => ctx.set setting) } := by
  refine ⟨h.initial, h.held, ?_, h.creating, h.grown, h.inRange⟩
  intro fd o' ho'
  rw [List.length_modify]
  exact h.made fd o' ho'

section Calls
variable [DecidableEq ι]

private theorem setCreating_same (s : FdManager ι) (c : ι) (fd : Option Int32) :
    (s.setCreating c fd).creating c = fd := Function.update_self _ _ _

private theorem setCreating_other (s : FdManager ι) {c c' : ι} (fd : Option Int32) (h : c' ≠ c) :
    (s.setCreating c fd).creating c' = s.creating c' := Function.update_of_ne h _ _

theorem Kept.setCreating {s : FdManager ι} (h : Kept s) (c : ι) {fd : Option Int32}
    (hfd : ∀ fd', fd = some fd' → 0 ≤ fd'.toInt) : Kept (s.setCreating c fd) := by
  refine ⟨h.initial, h.held, h.made, ?_, h.grown, h.inRange⟩
  intro c' fd' hcreating
  by_cases hc : c' = c
  · subst hc
    rw [setCreating_same] at hcreating
    exact hfd fd' hcreating
  · rw [setCreating_other s fd hc] at hcreating
    exact h.creating c' fd' hcreating

/-- The first half of `get` reads its slot or leaves the rest for later. -/
theorem Kept.get {s : FdManager ι} (h : Kept s) (c : ι) {fd : Int32} {autoCreate : Bool}
    (hfd : autoCreate = true → -1 ≤ fd.toInt) : Kept (s.get c fd autoCreate) := by
  unfold FdManager.get
  split
  · exact h
  next hne =>
    have hcreates : autoCreate = true → ∀ fd', some fd = some fd' → 0 ≤ fd'.toInt := by
      intro hauto fd' heq
      cases heq
      have hle := hfd hauto
      have hminus : fd.toInt ≠ -1 := fun heq => hne (Int32.toInt_inj.mp heq)
      omega
    split
    · split
      · next hauto => exact h.setCreating c (hcreates hauto)
      · exact h
    · next hlen =>
      split
      · next hnone => exact absurd (List.getElem?_eq_none_iff.mp hnone) hlen
      · next slot hslot =>
        split
        · exact h.returns hslot
        · next hopen => exact h.setCreating c (hcreates (by simp at hopen; exact hopen.2))

/-- The table has room for the slot, and what was in it still is. -/
theorem Kept.makeRoom {s : FdManager ι} (h : Kept s) {fd : Int32} (hfd : 0 ≤ fd.toInt) :
    ∃ s', (∀ c stat, s.create c fd stat = s'.place c fd stat) ∧ Kept s' ∧
      index fd < s'.datas.length ∧
      ∀ o, s'.datas[index fd]? = some (some o) ↔ s.datas[index fd]? = some (some o) := by
  by_cases hlen : s.datas.length ≤ index fd
  · have hinitial := h.initial
    have hindex := index_of_nonneg hfd
    refine ⟨s.resize (fd.toInt * 3 / 2).toNat, fun c stat => ?_, h.resize (by omega), ?_,
      resize_slot (by omega) _⟩
    · rw [FdManager.create, if_pos hlen]
    · rw [resize_length]
      omega
  · refine ⟨s, fun c stat => ?_, h, by omega, fun _ => Iff.rfl⟩
    rw [FdManager.create, if_neg hlen]

/-- The slot and the record of a call that has found room. -/
theorem place_eq (s : FdManager ι) (c : ι) {fd : Int32} (stat : Option Bool)
    (hroom : index fd < s.datas.length) : s.place c fd stat = { s.setCreating c none with
      datas := s.datas.set (index fd) (some s.contexts.length)
      contexts := s.contexts ++ [FdRecord.init stat]
      returned := Function.update s.returned fd (s.contexts.length :: s.returned fd) } :=
  if_neg (Nat.not_le.mpr hroom)

theorem Kept.place {s : FdManager ι} (h : Kept s) (c : ι) {fd : Int32} (stat : Option Bool)
    (hroom : index fd < s.datas.length) (hempty : ∀ o, s.datas[index fd]? ≠ some (some o)) :
    Kept (s.place c fd stat) := by
  have hnone : s.returned fd = [] :=
    List.eq_nil_iff_forall_not_mem.mpr (fun o ho => hempty o ((h.held fd o).mpr ho))
  have hfree : Kept (s.setCreating c none) := h.setCreating c (fun fd' heq => by cases heq)
  rw [place_eq s c stat hroom]
  refine h.replace rfl rfl (fun o => ?_) (fun o ho => ?_) (by simp) hfree.creating rfl
    h.inRange
  · dsimp only
    rw [List.getElem?_set_self hroom, hnone, List.mem_singleton]
    simp [eq_comm]
  · rw [hnone, List.mem_singleton] at ho
    simp [ho]

/-- A context that takes another one's place is not the one that has been handed out. -/
theorem Kept.place_not_shared {s : FdManager ι} (h : Kept s) (c : ι) {fd : Int32}
    (stat : Option Bool) (hroom : index fd < s.datas.length) {o : ObjectId}
    (hfull : s.datas[index fd]? = some (some o)) : ¬ Shared (s.place c fd stat) := by
  intro hshared
  have hold : o ∈ s.returned fd := (h.held fd o).mp hfull
  rw [place_eq s c stat hroom] at hshared
  have hsame := hshared.same fd o s.contexts.length
  dsimp only at hsame
  rw [Function.update_self] at hsame
  have heq := hsame (List.mem_cons_of_mem _ hold) List.mem_cons_self
  exact absurd heq (Nat.ne_of_lt (h.made fd o hold))

/-- One step: the contexts stay shared exactly when none is made over another one. -/
theorem step_shared {s t : FdManager ι} {a : ManagerAction ι} (h : Kept s)
    (hstep : step s a = some t) : (StillEmpty s a → Kept t) ∧ (Shared t ↔ StillEmpty s a) := by
  cases a with
  | get c fd autoCreate =>
    rw [step] at hstep
    split at hstep
    · cases hstep
    · next hcall =>
      cases hstep
      have ht : Kept (s.get c fd autoCreate) := h.get c (fun hauto => by grind)
      exact ⟨fun _ => ht, fun _ => trivial, fun _ => ht.shared⟩
  | create c stat =>
    obtain ⟨fd, hfd, rfl⟩ := Option.map_eq_some_iff.mp hstep
    obtain ⟨s', hcreate, hkept, hroom, hslot⟩ := h.makeRoom (h.creating c fd hfd)
    have hguard : StillEmpty s (.create c stat) ↔ ∀ o, s'.datas[index fd]? ≠ some (some o) := by
      constructor
      · exact fun hempty o hfull => hempty fd o hfd ((hslot o).mp hfull)
      · intro hempty fd' o hfd' hfull
        obtain rfl := Option.some.inj (hfd.symm.trans hfd')
        exact hempty o ((hslot o).mpr hfull)
    rw [hcreate, hguard]
    refine ⟨fun hempty => hkept.place c stat hroom hempty, ?_,
      fun hempty => (hkept.place c stat hroom hempty).shared⟩
    exact fun hshared o hfull => hkept.place_not_shared c stat hroom hfull hshared
  | del c fd =>
    rw [step] at hstep
    split at hstep
    · cases hstep
    · cases hstep
      exact ⟨fun _ => h.del fd, fun _ => trivial, fun _ => (h.del fd).shared⟩
  | set o setting =>
    rw [step] at hstep
    split at hstep
    · cases hstep
      exact ⟨fun _ => h.set o setting, fun _ => trivial, fun _ => (h.set o setting).shared⟩
    · cases hstep

/-- For any calls of any threads: each descriptor has one context until it is deleted, exactly
when no context is made in a slot that another call has filled since the look under the shared
lock. -/
theorem always_shared_iff (as : List (ManagerAction ι)) :
    Transition.Always step Shared ({} : FdManager ι) as ↔
      Transition.Guarded step StillEmpty ({} : FdManager ι) as :=
  Transition.always_iff_guarded (fun _ _ _ hk _ hg hstep => (step_shared hk hstep).1 hg)
    (fun _ _ _ hk _ hstep => (step_shared hk hstep).2) kept_start kept_start.shared

/-- Two threads find no context for descriptor 5. The first one makes one and sets a timeout there,
and then the second one makes another. -/
def twoCreators : List (ManagerAction Nat) :=
  [.get 0 5 true, .get 1 5 true, .create 0 (some true), .set 0 (.timeout .rcvTimeo 5000),
    .create 1 (some true), .get 0 5 false]

/-- From then on the timeout is not found any more. -/
theorem second_context_hides_timeout :
    (∃ s, Transition.run step ({} : FdManager Nat) twoCreators = some s ∧
      s.returned 5 = [1, 1, 0] ∧
      s.contexts.map (fun ctx => ctx.recvTimeout) = [some 5000, none]) ∧
    ¬ Transition.Always step Shared ({} : FdManager Nat) twoCreators := by
  have hlost : ∃ s, Transition.run step ({} : FdManager Nat) twoCreators = some s ∧
      s.returned 5 = [1, 1, 0] ∧
      s.contexts.map (fun ctx => ctx.recvTimeout) = [some 5000, none] :=
    ⟨_, rfl, by decide, by decide⟩
  refine ⟨hlost, ?_⟩
  intro halways
  obtain ⟨s, hrun, hreturned, -⟩ := hlost
  have hsame := (halways.finish hrun).same 5 1 0
  rw [hreturned] at hsame
  exact absurd (hsame (by decide) (by decide)) (by decide)

end Calls
end FdManager
end CoroutineRpc.Coroutine
