import CoroutineRpc.Coroutine.FdTable

/-! When the descriptor table keeps its contexts: a growth is computed from the caller's own
descriptor, so it has to be checked against the size that other threads have left. -/
namespace CoroutineRpc.Coroutine.FdTable
variable {ι σ φ κ : Type}

/-- What the steps of a stable table rely on. -/
structure Filled (s : FdTable ι σ φ κ) : Prop where
  initial : 32 ≤ s.slots.length
  small : s.slots.length < 2 ^ 31
  slots : ∀ fd, s.slots[fd]? = s.born fd
  growing : ∀ c call, s.calls c = some call → call.fdCtx = none → 32 ≤ call.fd
  objects : ∀ o e, (s.objects o).events.has e = true → ∃ fd, s.born fd = some o

private theorem intSize_eq {s : FdTable ι σ φ κ} (h : s.slots.length < 2 ^ 31) :
    s.intSize = s.slots.length := by
  unfold intSize
  rw [Int.bmod_def]
  omega

/-- Below 2^31 the check finds exactly the slots that there are. -/
theorem lookup_eq {s : FdTable ι σ φ κ} (h : s.slots.length < 2 ^ 31) (fd : Nat) :
    s.lookup fd = s.slots[fd]? := by
  unfold lookup
  rw [intSize_eq h]
  split
  · rfl
  · next hfd => exact (List.getElem?_eq_none (by omega)).symm

/-- From 2^31 on the last descriptor of the table is not found. -/
theorem lookup_overflow {s : FdTable ι σ φ κ} (h : 2 ^ 31 ≤ s.slots.length) :
    s.lookup (s.slots.length - 1) = none := by
  unfold lookup
  rw [if_neg]
  have hlt : s.intSize < 2 ^ 31 := by
    unfold intSize
    have := Int.bmod_lt (x := s.slots.length) (m := 2 ^ 32) (by decide)
    omega
  omega

theorem resize_length (s : FdTable ι σ φ κ) (size : Nat) :
    (s.contextResize size).slots.length = size := by
  simp only [contextResize, List.length_append, List.length_take, List.length_range']
  omega

/-- A growth leaves the old slots alone. -/
theorem resize_slots {s : FdTable ι σ φ κ} {size fd : Nat} (h : s.slots.length ≤ size)
    (hfd : fd < s.slots.length) : (s.contextResize size).slots[fd]? = s.slots[fd]? := by
  simp only [contextResize, List.take_of_length_le h]
  exact List.getElem?_append_left hfd

/-- Where every slot holds the first context of its descriptor, that one is found. -/
theorem Filled.found {s : FdTable ι σ φ κ} (h : Filled s) {fd : Nat} {o : ObjectId}
    (hborn : s.born fd = some o) : s.lookup fd = some o := by
  rw [lookup_eq h.small, h.slots, hborn]

theorem Filled.reachable {s : FdTable ι σ φ κ} (h : Filled s) (o : ObjectId) (e : Event)
    (he : (s.objects o).events.has e = true) : ∃ fd, s.lookup fd = some o := by
  obtain ⟨fd, hborn⟩ := h.objects o e he
  exact ⟨fd, h.found hborn⟩

/-- After a growth the slots are those of the old table and new ones behind them. -/
theorem Filled.resize {s : FdTable ι σ φ κ} (h : Filled s) {size : Nat}
    (hup : s.slots.length ≤ size) (hsmall : size < 2 ^ 31) : Filled (s.contextResize size) := by
  refine ⟨?_, ?_, ?_, h.growing, ?_⟩
  · rw [resize_length]
    exact h.initial.trans hup
  · rw [resize_length]
    exact hsmall
  · intro fd
    change _ = (s.born fd).or (s.contextResize size).slots[fd]?
    by_cases hfd : fd < s.slots.length
    · rw [resize_slots hup hfd, h.slots, Option.or_self]
    · have hnone : s.born fd = none := by rw [← h.slots, List.getElem?_eq_none (by omega)]
      rw [hnone, Option.none_or]
  · intro o e he
    obtain ⟨fd, hborn⟩ := h.objects o e he
    refine ⟨fd, ?_⟩
    change (s.born fd).or _ = some o
    rw [hborn, Option.some_or]

private theorem filled_start : Filled ({} : FdTable ι σ φ κ) := by
  refine ⟨by simp, by simp, fun _ => rfl, ?_, ?_⟩
  · intro c call hcall
    cases hcall
  · intro o e he
    cases e
    · cases he
    · cases he

private theorem stable_start : Stable ({} : FdTable ι σ φ κ) := by
  refine ⟨by simp, rfl, fun _ _ => filled_start.found, ?_, filled_start.reachable⟩
  intro c call o hcall
  cases hcall

section Calls
variable [DecidableEq ι]

@[simp] theorem setCall_same (s : FdTable ι σ φ κ) (c : ι) (x : Option (FdCall σ φ κ)) :
    (s.setCall c x).calls c = x := Function.update_self _ _ _

theorem setCall_other (s : FdTable ι σ φ κ) {c c' : ι} (x : Option (FdCall σ φ κ)) (h : c' ≠ c) :
    (s.setCall c x).calls c' = s.calls c' := Function.update_of_ne h _ _

private theorem setCall_cases {s : FdTable ι σ φ κ} {c c' : ι} {x : Option (FdCall σ φ κ)}
    {call : FdCall σ φ κ} (h : (s.setCall c x).calls c' = some call) :
    x = some call ∨ s.calls c' = some call := by
  by_cases hc : c' = c
  · subst hc
    rw [setCall_same] at h
    exact Or.inl h
  · rw [setCall_other s x hc] at h
    exact Or.inr h

theorem Filled.setCall {s : FdTable ι σ φ κ} (h : Filled s) (c : ι) {x : Option (FdCall σ φ κ)}
    (hx : ∀ call, x = some call → call.fdCtx = none → 32 ≤ call.fd) : Filled (s.setCall c x) := by
  refine ⟨h.initial, h.small, h.slots, ?_, h.objects⟩
  intro c' call hcall hnone
  rcases setCall_cases hcall with hx' | hcall
  · exact hx call hx' hnone
  · exact h.growing c' call hcall hnone

theorem Stable.setCall {s : FdTable ι σ φ κ} (h : Stable s) (c : ι) {x : Option (FdCall σ φ κ)}
    (hx : ∀ call o, x = some call → call.fdCtx = some o → s.born call.fd = some o) :
    Stable (s.setCall c x) := by
  refine ⟨h.grown, h.inRange, h.found, ?_, h.reachable⟩
  intro c' call o hcall ho
  rcases setCall_cases hcall with hx' | hcall
  · exact hx call o hx' ho
  · exact h.calls c' call o hcall ho

/-- An operation on a context registers nothing elsewhere. -/
theorem Filled.act {s : FdTable ι σ φ κ} (h : Filled s) (c : ι) {fd : Nat} {o : ObjectId}
    (hborn : s.born fd = some o) (x : FdContext σ φ κ) :
    Filled { s.setCall c none with objects := Function.update s.objects o x } := by
  refine ⟨h.initial, h.small, h.slots, ?_, ?_⟩
  · exact (h.setCall c (fun call hcall => by cases hcall)).growing
  · intro o' e he
    by_cases ho : o' = o
    · exact ⟨fd, ho ▸ hborn⟩
    · dsimp only at he
      rw [Function.update_of_ne ho] at he
      exact h.objects o' e he

/-- A call that grows the table upwards finds its slot and keeps all the others. -/
theorem grow_stable {s : FdTable ι σ φ κ} (hf : Filled s) (hs : Stable s) {c : ι} {fd : Nat}
    {op : FdOp σ φ κ} (hfd : 32 ≤ fd) (hup : s.slots.length ≤ fd * 3 / 2)
    (hsmall : fd * 3 / 2 < 2 ^ 31) :
    Filled (s.grow c ⟨fd, op, none⟩) ∧ Stable (s.grow c ⟨fd, op, none⟩) := by
  have hfilled := hf.resize hup hsmall
  have hlt : fd < (s.contextResize (fd * 3 / 2)).slots.length := by
    rw [resize_length]
    omega
  obtain ⟨o, ho⟩ : ∃ o, (s.contextResize (fd * 3 / 2)).slots[fd]? = some o :=
    ⟨_, List.getElem?_eq_getElem hlt⟩
  have hstable : Stable (s.contextResize (fd * 3 / 2)) := by
    refine ⟨?_, hs.inRange, fun fd o => hfilled.found, ?_, hfilled.reachable⟩
    · rw [resize_length]
      change _ = max s.largest (fd * 3 / 2)
      have := hs.grown
      omega
    · intro c' call o' hcall ho'
      change (s.born call.fd).or _ = some o'
      rw [hs.calls c' call o' hcall ho', Option.some_or]
  simp only [grow, ho]
  constructor
  · apply hfilled.setCall
    rintro call hcall hnone
    cases hcall
    cases hnone
  · apply hstable.setCall
    rintro call o' hcall ho'
    cases hcall
    cases ho'
    rw [← hfilled.slots, ho]

/-- A smaller target cuts the table, and a target that no `int` holds hides its end. -/
theorem grow_unstable {s : FdTable ι σ φ κ} (hs : Stable s) {c : ι} {fd : Nat}
    {op : FdOp σ φ κ} (hdown : ¬ (s.slots.length ≤ fd * 3 / 2 ∧ fd * 3 / 2 < 2 ^ 31)) :
    ¬ Stable (s.grow c ⟨fd, op, none⟩) := by
  have hslots : (s.grow c ⟨fd, op, none⟩).slots = (s.contextResize (fd * 3 / 2)).slots := by
    unfold grow
    dsimp only
    split <;> rfl
  have hlength := resize_length s (fd * 3 / 2)
  intro ht
  by_cases hup : s.slots.length ≤ fd * 3 / 2
  · have hbig : 2 ^ 31 ≤ (s.grow c ⟨fd, op, none⟩).slots.length := by
      rw [hslots, hlength]
      omega
    have hborn : (s.grow c ⟨fd, op, none⟩).born (fd * 3 / 2 - 1) =
        (s.born (fd * 3 / 2 - 1)).or (s.contextResize (fd * 3 / 2)).slots[fd * 3 / 2 - 1]? := by
      unfold grow
      dsimp only
      split <;> rfl
    have hlt : fd * 3 / 2 - 1 < (s.contextResize (fd * 3 / 2)).slots.length := by omega
    rw [List.getElem?_eq_getElem hlt] at hborn
    obtain ⟨o, ho⟩ : ∃ o, (s.grow c ⟨fd, op, none⟩).born (fd * 3 / 2 - 1) = some o := by
      rw [hborn]
      cases s.born (fd * 3 / 2 - 1) with
      | none => exact ⟨_, rfl⟩
      | some o => exact ⟨o, rfl⟩
    have hmissing := lookup_overflow hbig
    rw [hslots, hlength] at hmissing
    cases hmissing.symm.trans (ht.found _ o ho)
  · have hgrown := ht.grown
    have hlargest : (s.grow c ⟨fd, op, none⟩).largest = max s.largest (fd * 3 / 2) := by
      unfold grow
      dsimp only
      split <;> rfl
    rw [hslots, hlength, hlargest, ← hs.grown] at hgrown
    omega

/-- One step: the table stays stable exactly when it grows upwards. -/
theorem step_stable {s t : FdTable ι σ φ κ} {a : FdAction ι σ φ κ} (hf : Filled s)
    (hs : Stable s) (hstep : step s a = some t) :
    (GrowsUp s a → Filled t) ∧ (Stable t ↔ GrowsUp s a) := by
  unfold step at hstep
  split at hstep
  · next c fd op =>
    have hlookup := lookup_eq hf.small fd
    split at hstep
    · cases hstep
    · next o _ ho =>
      cases hstep
      have hborn : s.born fd = some o := by rw [← hf.slots, ← hlookup, ho]
      refine ⟨fun _ => hf.setCall c ?_, fun _ => trivial, fun _ => hs.setCall c ?_⟩
      · rintro call hcall hnone
        cases hcall
        cases hnone
      · rintro call o' hcall ho'
        cases hcall
        cases ho'
        exact hborn
    · next e waiter _ hnone =>
      cases hstep
      have hfd : 32 ≤ fd := by
        rw [hlookup, List.getElem?_eq_none_iff] at hnone
        exact hf.initial.trans hnone
      refine ⟨fun _ => hf.setCall c ?_, fun _ => trivial, fun _ => hs.setCall c ?_⟩
      · rintro call hcall -
        cases hcall
        exact hfd
      · rintro call o' hcall ho'
        cases hcall
        cases ho'
    · cases hstep
      exact ⟨fun _ => hf, fun _ => trivial, fun _ => hs⟩
  · next c =>
    split at hstep
    · next fd op hcall =>
      cases hstep
      have hfd := hf.growing c _ hcall rfl
      have hguard : GrowsUp s (.grow c) ↔ s.slots.length ≤ fd * 3 / 2 ∧ fd * 3 / 2 < 2 ^ 31 := by
        constructor
        · exact fun h => h _ hcall
        · rintro h call hcall'
          obtain rfl := Option.some.inj (hcall.symm.trans hcall')
          exact h
      rw [hguard]
      refine ⟨fun h => (grow_stable hf hs hfd h.1 h.2).1, fun ht => ?_, fun h => ?_⟩
      · by_contra hdown
        exact grow_unstable hs hdown ht
      · exact (grow_stable hf hs hfd h.1 h.2).2
    · cases hstep
  · next c ok =>
    split at hstep
    · next fd op o hcall =>
      cases hstep
      have hborn : s.born fd = some o := hs.calls c _ o hcall rfl
      have hfilled := hf.act c hborn (op.apply (s.objects o) ok)
      have hcalls := (hs.setCall c (fun call o (hx : none = some call) => by cases hx)).calls
      exact ⟨fun _ => hfilled, fun _ => trivial, fun _ =>
        ⟨hs.grown, hs.inRange, hs.found, hcalls, hfilled.reachable⟩⟩
    · cases hstep

/-- For any calls of any threads: the table only grows and keeps its contexts exactly when no
growth asks for less than the table has by then, or for more than an `int` holds. -/
theorem always_stable_iff (as : List (FdAction ι σ φ κ)) :
    Transition.Always step Stable ({} : FdTable ι σ φ κ) as ↔
      Transition.Guarded step GrowsUp ({} : FdTable ι σ φ κ) as :=
  Transition.always_iff_guarded (fun _ _ _ hf hs hg hstep => (step_stable hf hs hstep).1 hg)
    (fun _ _ _ hf hs hstep => (step_stable hf hs hstep).2) filled_start stable_start

/-- Thread 0 has found no room for descriptor 40 when thread 1 makes room for 60 and registers
a fiber there; the growth that thread 0 asks for then takes that room away again. -/
def smallerGrowthLast : List (FdAction Nat Unit Nat Unit) :=
  [.check 0 40 (.add .read { scheduler := some (), fiber := some 7 }),
    .check 1 60 (.add .read { scheduler := some (), fiber := some 8 }), .grow 1, .act 1 true, .grow 0]

/-- The table shrinks from 90 to 60 contexts, and the waiter of descriptor 60 is out of reach. -/
theorem smaller_growth_loses_waiter :
    (∃ s, Transition.run step ({} : FdTable Nat Unit Nat Unit) smallerGrowthLast = some s ∧
      s.slots.length = 60 ∧ s.largest = 90 ∧ s.born 60 = some 60 ∧ s.lookup 60 = none ∧
      (s.objects 60).read.fiber = some 8 ∧ ∀ fd < 60, s.lookup fd ≠ some 60) ∧
    ¬ Transition.Always step Stable ({} : FdTable Nat Unit Nat Unit) smallerGrowthLast := by
  have hlost : ∃ s, Transition.run step ({} : FdTable Nat Unit Nat Unit) smallerGrowthLast = some s ∧
      s.slots.length = 60 ∧ s.largest = 90 ∧ s.born 60 = some 60 ∧ s.lookup 60 = none ∧
      (s.objects 60).read.fiber = some 8 ∧ ∀ fd < 60, s.lookup fd ≠ some 60 :=
    ⟨_, rfl, by decide +kernel, by decide +kernel, by decide +kernel, by decide +kernel, rfl, by decide +kernel⟩
  refine ⟨hlost, ?_⟩
  intro halways
  obtain ⟨s, hrun, hlength, hlargest, -⟩ := hlost
  have hgrown := (halways.finish hrun).grown
  omega

end Calls
end CoroutineRpc.Coroutine.FdTable
