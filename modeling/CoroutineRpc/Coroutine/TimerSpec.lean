import CoroutineRpc.Coroutine.Timer

/-! What each operation on `m_timers` does to the set while it is in order: re-keying one
timer takes it in again unless the new deadline is taken, and a collecting pass re-keys
every recurring timer that is due. -/
namespace CoroutineRpc.Coroutine.TimerManager
variable {β : Type}

/-- The set is in the order of the current deadlines. -/
def Ordered (m : TimerManager β) : Prop := KeyedSet.Ordered m.next m.timers

@[simp] theorem modify_timers (m : TimerManager β) (t : TimerId) (f : Timer β → Timer β) :
    (m.modify t f).timers = m.timers := rfl

@[simp] theorem modify_created (m : TimerManager β) (t : TimerId) (f : Timer β → Timer β) :
    (m.modify t f).created = m.created := rfl

@[simp] theorem modify_same (m : TimerManager β) (t : TimerId) (f : Timer β → Timer β) :
    (m.modify t f).objects t = f (m.objects t) := Function.update_self _ _ _

@[simp] theorem modify_other (m : TimerManager β) {t u : TimerId} (f : Timer β → Timer β)
    (h : u ≠ t) : (m.modify t f).objects u = m.objects u := Function.update_of_ne h _ _

@[simp] theorem erase_objects (m : TimerManager β) (t : TimerId) :
    (m.erase t).objects = m.objects := rfl

@[simp] theorem erase_created (m : TimerManager β) (t : TimerId) :
    (m.erase t).created = m.created := rfl

@[simp] theorem insert_objects (m : TimerManager β) (t : TimerId) :
    (m.insert t).objects = m.objects := rfl

@[simp] theorem insert_created (m : TimerManager β) (t : TimerId) :
    (m.insert t).created = m.created := rfl

theorem next_modify_other (m : TimerManager β) {t u : TimerId} (f : Timer β → Timer β)
    (h : u ≠ t) : (m.modify t f).next u = m.next u := by
  rw [next, next, modify_other m f h]

/-- A timer in the set is found as itself. -/
theorem find_self {m : TimerManager β} (h : m.Ordered) {t : TimerId} (ht : t ∈ m.timers) :
    m.find t = some t := KeyedSet.find_of_mem h ht

theorem Ordered.modify {m : TimerManager β} (h : m.Ordered) {t : TimerId}
    (f : Timer β → Timer β) (ht : t ∉ m.timers) : (m.modify t f).Ordered := by
  refine KeyedSet.Ordered.congr h ?_
  intro u hu
  exact m.next_modify_other f (fun he => ht (he ▸ hu))

theorem Ordered.modify_keep {m : TimerManager β} (h : m.Ordered) {t : TimerId}
    {f : Timer β → Timer β} (hf : (f (m.objects t)).next = m.next t) : (m.modify t f).Ordered := by
  refine KeyedSet.Ordered.congr h ?_
  intro u _
  by_cases hu : u = t
  · subst hu
    rw [next, modify_same, hf]
  · exact m.next_modify_other f hu

theorem Ordered.erase {m : TimerManager β} (h : m.Ordered) (t : TimerId) : (m.erase t).Ordered :=
  KeyedSet.Ordered.erase h t

theorem mem_erase {m : TimerManager β} (h : m.Ordered) (t u : TimerId) :
    u ∈ (m.erase t).timers ↔ u ≠ t ∧ u ∈ m.timers := h.nodup.mem_erase_iff

theorem notMem_erase {m : TimerManager β} (h : m.Ordered) (t : TimerId) :
    t ∉ (m.erase t).timers := fun hin => ((mem_erase h t t).mp hin).1 rfl

/-- Once the timer that was found is gone, the one that was looked for is not in the set. -/
theorem notMem_erase_found {m : TimerManager β} (h : m.Ordered) {t it : TimerId}
    (hfind : m.find t = some it) : t ∉ (m.erase it).timers := by
  intro hin
  have ht := (mem_erase h it t).mp hin
  rw [find_self h ht.2] at hfind
  exact ht.1 (Option.some.inj hfind)

/-- Reading the next deadline changes the flag only. -/
theorem getNextTimer_manager (m : TimerManager β) (now : Int) :
    (m.getNextTimer now).2 = { m with tickled := false } := by
  simp only [getNextTimer]
  split
  · rfl
  split
  · rfl
  · rfl

/-- Give a timer outside the set a new deadline and take it in. -/
structure Rekeyed (m : TimerManager β) (t : TimerId) (x : Timer β) (m' : TimerManager β) :
    Prop where
  ordered : m'.Ordered
  created : m'.created = m.created
  same : m'.objects t = x
  other : ∀ u, u ≠ t → m'.objects u = m.objects u
  mem_other : ∀ u, u ≠ t → (u ∈ m'.timers ↔ u ∈ m.timers)
  mem_self : t ∈ m'.timers ↔ ∀ u ∈ m.timers, u ≠ t → m.next u ≠ x.next
  previousTime : m'.previousTime = m.previousTime

theorem rekeyed_insert {m : TimerManager β} (h : m.Ordered) {t : TimerId}
    (f : Timer β → Timer β) (ht : t ∉ m.timers) :
    Rekeyed m t (f (m.objects t)) ((m.modify t f).insert t) := by
  have hord : (m.modify t f).Ordered := h.modify f ht
  have hkey : (m.modify t f).next t = (f (m.objects t)).next := by rw [next, modify_same]
  refine ⟨KeyedSet.insert_ordered hord, rfl, m.modify_same t f, fun u => m.modify_other f, ?_, ?_,
    rfl⟩
  · intro u hu
    constructor
    · intro hmem
      exact (KeyedSet.mem_of_mem_insert hmem).resolve_left hu
    · exact KeyedSet.mem_insert_of_mem
  · refine (KeyedSet.mem_insert_self_iff hord ht).trans ?_
    constructor
    · intro hfresh u hu hne
      rw [← hkey, ← m.next_modify_other f hne]
      exact hfresh u hu
    · intro hfresh u hu
      have hne : u ≠ t := fun he => ht (he ▸ hu)
      rw [hkey, m.next_modify_other f hne]
      exact hfresh u hu hne

/-- The pattern of `refresh`, `reset` and the collecting loop. -/
theorem rekeyed_erase_insert {m : TimerManager β} (h : m.Ordered) (t : TimerId)
    (f : Timer β → Timer β) :
    Rekeyed m t (f (m.objects t)) (((m.erase t).modify t f).insert t) := by
  have hr := rekeyed_insert (h.erase t) f (notMem_erase h t)
  refine ⟨hr.ordered, hr.created, hr.same, hr.other, ?_, ?_, hr.previousTime⟩
  · intro u hu
    rw [hr.mem_other u hu, mem_erase h]
    exact and_iff_right hu
  · rw [hr.mem_self]
    constructor
    · intro hfresh u hu hne
      exact hfresh u ((mem_erase h t u).mpr ⟨hne, hu⟩) hne
    · intro hfresh u hu hne
      exact hfresh u ((mem_erase h t u).mp hu).2 hne

/-- A timer is still wanted after a pass at `now`. -/
def Survives (m : TimerManager β) (now : Int) (t : TimerId) : Prop :=
  (m.objects t).recurring = true ∨ now < m.next t

/-- Every recurring timer that is due comes back later than now. -/
def Later (m : TimerManager β) (now : Int) : Prop :=
  ∀ t ∈ m.timers, m.next t ≤ now → (m.objects t).recurring = true →
    now < deadline now (m.objects t).ms

/-- A timer as a pass that collects it leaves it. -/
def collectedObject (now : Int) (x : Timer β) : Timer β :=
  if x.recurring then { x with next := deadline now x.ms } else { x with cb := none }

/-- The deadline of a timer after a pass at `now`. -/
def nextAfter (m : TimerManager β) (now : Int) (t : TimerId) : Int :=
  if m.next t ≤ now then deadline now (m.objects t).ms else m.next t

/-- No two timers that survive the pass come out of it with the same deadline. -/
def Apart (m : TimerManager β) (now : Int) : Prop :=
  ∀ t ∈ m.timers, ∀ u ∈ m.timers, t ≠ u → m.Survives now t → m.Survives now u →
    m.nextAfter now t ≠ m.nextAfter now u

/-- The timers that a pass at `now` collects, in their order. -/
def expired (m : TimerManager β) (now : Int) : List TimerId :=
  m.timers.filter (fun t => m.next t ≤ now)

/-- What a whole pass does. -/
structure Collected (m : TimerManager β) (now : Int) (r : List (TimerId × Option β))
    (m' : TimerManager β) : Prop where
  ordered : m'.Ordered
  created : m'.created = m.created
  previousTime : m'.previousTime = m.previousTime
  collected : r = (m.expired now).map (fun t => (t, (m.objects t).cb))
  object : ∀ t ∈ m.expired now, m'.objects t = collectedObject now (m.objects t)
  frame : ∀ t ∉ m.expired now, m'.objects t = m.objects t
  mem : ∀ t ∈ m'.timers, t ∈ m.timers ∧ m.Survives now t
  keeps : (∀ t ∈ m.timers, m.Survives now t → t ∈ m'.timers) ↔ m.Apart now

/-- What the body of the loop does to the timer that it takes. -/
structure CollectedOne (m : TimerManager β) (now : Int) (t : TimerId) (m' : TimerManager β) :
    Prop where
  ordered : m'.Ordered
  created : m'.created = m.created
  previousTime : m'.previousTime = m.previousTime
  same : m'.objects t = collectedObject now (m.objects t)
  other : ∀ u, u ≠ t → m'.objects u = m.objects u
  mem_other : ∀ u, u ≠ t → (u ∈ m'.timers ↔ u ∈ m.timers)
  mem_self : t ∈ m'.timers ↔ (m.objects t).recurring = true ∧
    ∀ u ∈ m.timers, u ≠ t → m.next u ≠ deadline now (m.objects t).ms

private theorem due_some {m : TimerManager β} {now : Int} {t : TimerId}
    (h : m.due now false = some t) : ∃ ts, m.timers = t :: ts ∧ m.next t ≤ now := by
  obtain ⟨hhead, hdue⟩ := Option.filter_eq_some_iff.mp h
  obtain ⟨ts, hts⟩ := List.head?_eq_some_iff.mp hhead
  exact ⟨ts, hts, by simpa using hdue⟩

private theorem due_none {m : TimerManager β} (hord : m.Ordered) {now : Int}
    (h : m.due now false = none) : ∀ t ∈ m.timers, now < m.next t := by
  cases htimers : m.timers with
  | nil =>
    intro t ht
    cases ht
  | cons t ts =>
    have hhead : now < m.next t := by simpa [due, htimers] using h
    rw [Ordered, htimers] at hord
    intro u hu
    rcases List.mem_cons.mp hu with rfl | hu
    · exact hhead
    · exact lt_trans hhead (hord.head u hu)

theorem collectOne_objects (m : TimerManager β) (now : Int) (t u : TimerId) :
    (m.collectOne now t).objects u =
      if u = t then collectedObject now (m.objects u) else m.objects u := by
  by_cases hrec : (m.objects t).recurring = true
  · have heq : m.collectOne now t =
        ((m.erase t).modify t (fun x => { x with next := deadline now x.ms })).insert t := if_pos hrec
    rw [heq, insert_objects]
    rcases eq_or_ne u t with rfl | hne
    · rw [if_pos rfl, modify_same, collectedObject, if_pos hrec, erase_objects]
    · rw [if_neg hne, modify_other _ _ hne, erase_objects]
  · have heq : m.collectOne now t = (m.erase t).modify t (fun x => { x with cb := none }) :=
      if_neg hrec
    rw [heq]
    rcases eq_or_ne u t with rfl | hne
    · rw [if_pos rfl, modify_same, collectedObject, if_neg hrec, erase_objects]
    · rw [if_neg hne, modify_other _ _ hne, erase_objects]

theorem collectedObject_fields (now : Int) (x : Timer β) :
    (collectedObject now x).recurring = x.recurring ∧ (collectedObject now x).ms = x.ms := by
  rw [collectedObject]
  split
  · exact ⟨rfl, rfl⟩
  · exact ⟨rfl, rfl⟩

/-- What no step of a pass changes. -/
theorem collectOne_fields (m : TimerManager β) (now : Int) (t : TimerId) :
    (m.collectOne now t).created = m.created ∧
      (m.collectOne now t).previousTime = m.previousTime ∧
      ∀ u, ((m.collectOne now t).objects u).recurring = (m.objects u).recurring ∧
        ((m.collectOne now t).objects u).ms = (m.objects u).ms := by
  refine ⟨?_, ?_, fun u => ?_⟩
  · rw [collectOne]
    split
    · rfl
    · rfl
  · rw [collectOne]
    split
    · rfl
    · rfl
  · rw [collectOne_objects]
    split
    · exact collectedObject_fields now _
    · exact ⟨rfl, rfl⟩

theorem collectLoop_fields {m m' : TimerManager β} {now : Int} {rollover : Bool} {fuel : Nat}
    {r : List (TimerId × Option β)} (hrun : collectLoop now rollover fuel m = some (r, m')) :
    m'.created = m.created ∧ m'.previousTime = m.previousTime ∧
      ∀ u, (m'.objects u).recurring = (m.objects u).recurring ∧
        (m'.objects u).ms = (m.objects u).ms := by
  induction fuel generalizing m r with
  | zero =>
    rw [collectLoop] at hrun
    split at hrun
    · cases hrun
    · cases hrun
      exact ⟨rfl, rfl, fun _ => ⟨rfl, rfl⟩⟩
  | succ fuel ih =>
    rw [collectLoop] at hrun
    split at hrun
    · cases hrun
      exact ⟨rfl, rfl, fun _ => ⟨rfl, rfl⟩⟩
    · next t _ =>
      obtain ⟨⟨r', m₁⟩, hrest, heq⟩ := Option.map_eq_some_iff.mp hrun
      cases heq
      obtain ⟨hcreated, hprevious, hobject⟩ := m.collectOne_fields now t
      obtain ⟨hcreated', hprevious', hobject'⟩ := ih hrest
      refine ⟨hcreated'.trans hcreated, hprevious'.trans hprevious, fun u => ?_⟩
      exact ⟨(hobject' u).1.trans (hobject u).1, (hobject' u).2.trans (hobject u).2⟩

theorem collectOne_spec {m : TimerManager β} (hord : m.Ordered) (now : Int) (t : TimerId) :
    CollectedOne m now t (m.collectOne now t) := by
  obtain ⟨hcreated, hprevious, -⟩ := m.collectOne_fields now t
  have hsame : (m.collectOne now t).objects t = collectedObject now (m.objects t) := by
    rw [collectOne_objects, if_pos rfl]
  have hother : ∀ u, u ≠ t → (m.collectOne now t).objects u = m.objects u := by
    intro u hu
    rw [collectOne_objects, if_neg hu]
  by_cases hrec : (m.objects t).recurring = true
  · have hr := rekeyed_erase_insert hord t (fun x => { x with next := deadline now x.ms })
    have heq : m.collectOne now t =
        ((m.erase t).modify t (fun x => { x with next := deadline now x.ms })).insert t := if_pos hrec
    rw [← heq] at hr
    refine ⟨hr.ordered, hcreated, hprevious, hsame, hother, hr.mem_other, ?_⟩
    rw [hr.mem_self]
    exact (and_iff_right hrec).symm
  · have heq : m.collectOne now t = (m.erase t).modify t (fun x => { x with cb := none }) :=
      if_neg hrec
    have hout : t ∉ (m.collectOne now t).timers := by
      rw [heq, modify_timers]
      exact notMem_erase hord t
    refine ⟨?_, hcreated, hprevious, hsame, hother, ?_, fun hin => absurd hin hout,
      fun h => absurd h.1 hrec⟩
    · rw [heq]
      exact (hord.erase t).modify_keep rfl
    · intro u hu
      rw [heq, modify_timers, mem_erase hord]
      exact and_iff_right hu

namespace CollectedOne
variable {m m₁ : TimerManager β} {now : Int} {t : TimerId}

theorem next_self (h : CollectedOne m now t m₁) (hrec : (m.objects t).recurring = true) :
    m₁.next t = deadline now (m.objects t).ms := by
  rw [next, h.same, collectedObject, if_pos hrec]

theorem next_other (h : CollectedOne m now t m₁) {u : TimerId} (hu : u ≠ t) :
    m₁.next u = m.next u := by
  rw [next, next, h.other u hu]

end CollectedOne

/-- A timer that comes back later, if at all, is due no more. -/
theorem expired_collectOne {m : TimerManager β} (hord : m.Ordered) {now : Int} {t : TimerId}
    (hdue : m.due now false = some t)
    (hlater : (m.objects t).recurring = true → now < deadline now (m.objects t).ms) :
    m.expired now = t :: (m.collectOne now t).expired now := by
  obtain ⟨ts, htimers, hle⟩ := due_some hdue
  have hone := collectOne_spec hord now t
  have hnodup : (t :: ts).Nodup := htimers ▸ hord.nodup
  have hout : t ∉ ts := (List.nodup_cons.mp hnodup).1
  have herase : (m.erase t).timers = ts := by simp [erase, htimers]
  have hfilter : ts.filter (fun u => decide (m.next u ≤ now)) =
      ts.filter (fun u => decide ((m.collectOne now t).next u ≤ now)) := by
    apply List.filter_congr
    intro u hu
    rw [hone.next_other (fun he => hout (he ▸ hu))]
  have hexpired : m.expired now = t :: ts.filter (fun u => decide (m.next u ≤ now)) := by
    rw [expired, htimers, List.filter_cons_of_pos (by simpa using hle)]
  rw [hexpired, hfilter, expired]
  congr 1
  by_cases hrec : (m.objects t).recurring = true
  · have hlate : decide ((m.collectOne now t).next t ≤ now) = false := by
      rw [hone.next_self hrec]
      exact decide_eq_false (not_le.mpr (hlater hrec))
    have htimers' : (m.collectOne now t).timers =
        KeyedSet.insert (m.collectOne now t).next t ts := by
      have heq : m.collectOne now t =
          ((m.erase t).modify t (fun x => { x with next := deadline now x.ms })).insert t := by
        simp only [collectOne, erase_objects, hrec, if_true]
      rw [heq, ← herase]
      rfl
    rw [htimers']
    exact (KeyedSet.filter_insert
      (p := fun u => decide ((m.collectOne now t).next u ≤ now)) hlate ts).symm
  · have htimers' : (m.collectOne now t).timers = ts := by
      have heq : m.collectOne now t = (m.erase t).modify t (fun x => { x with cb := none }) := by
        simp only [collectOne, erase_objects, hrec]
        rfl
      rw [heq, modify_timers, herase]
    rw [htimers']

namespace CollectedOne
variable {m m₁ : TimerManager β} {now : Int} {t : TimerId}

private theorem notMem_expired (hexpired : m.expired now = t :: m₁.expired now) (hord : m.Ordered) :
    t ∉ m₁.expired now := by
  have hnodup : (m.expired now).Nodup := hord.nodup.filter _
  rw [hexpired] at hnodup
  exact (List.nodup_cons.mp hnodup).1

/-- Whether a timer survives does not change within a pass. -/
theorem survives_iff (h : CollectedOne m now t m₁) (hle : m.next t ≤ now) (u : TimerId) :
    m₁.Survives now u ↔ m.Survives now u := by
  by_cases hu : u = t
  · subst hu
    have hself := h.same
    unfold collectedObject at hself
    by_cases hrec : (m.objects u).recurring = true
    · rw [if_pos hrec] at hself
      simp [Survives, hself, hrec]
    · rw [if_neg hrec] at hself
      simp [Survives, next, hself]
  · rw [Survives, Survives, next, next, h.other u hu]

/-- The deadline with which a timer survives does not change either. -/
theorem nextAfter_eq (h : CollectedOne m now t m₁) (hle : m.next t ≤ now)
    (hlater : (m.objects t).recurring = true → now < deadline now (m.objects t).ms) {u : TimerId}
    (hsurvives : m.Survives now u) : m₁.nextAfter now u = m.nextAfter now u := by
  by_cases hu : u = t
  · subst hu
    have hrec : (m.objects u).recurring = true := hsurvives.resolve_right (not_lt.mpr hle)
    rw [nextAfter, nextAfter, h.next_self hrec, if_pos hle, if_neg (not_le.mpr (hlater hrec))]
  · rw [nextAfter, nextAfter, next, next, h.other u hu]

/-- If the timer stays where it survives, the survivors are the same before and after the step. -/
theorem keeps_of_kept (h : CollectedOne m now t m₁) (hle : m.next t ≤ now) (htimer : t ∈ m.timers)
    (hlater : (m.objects t).recurring = true → now < deadline now (m.objects t).ms)
    {r : List (TimerId × Option β)} {m' : TimerManager β} (hrest : Collected m₁ now r m')
    (hkept : m.Survives now t → t ∈ m₁.timers) :
    (∀ u ∈ m.timers, m.Survives now u → u ∈ m'.timers) ↔ m.Apart now := by
  have hsame : ∀ u, m.Survives now u → (u ∈ m.timers ↔ u ∈ m₁.timers) := by
    intro u hsurvives
    by_cases hut : u = t
    · subst hut
      exact iff_of_true htimer (hkept hsurvives)
    · exact (h.mem_other u hut).symm
  have hleft : (∀ u ∈ m.timers, m.Survives now u → u ∈ m'.timers) ↔
      ∀ u ∈ m₁.timers, m₁.Survives now u → u ∈ m'.timers := by
    refine forall_congr' (fun u => ?_)
    rw [h.survives_iff hle]
    constructor
    · exact fun hu hmem hs => hu ((hsame u hs).mpr hmem) hs
    · exact fun hu hmem hs => hu ((hsame u hs).mp hmem) hs
  have hright : m.Apart now ↔ m₁.Apart now := by
    unfold Apart
    refine forall_congr' (fun u => ?_)
    constructor
    · intro hu hmem v hv hne hsu hsv
      rw [h.survives_iff hle] at hsu hsv
      rw [h.nextAfter_eq hle hlater hsu, h.nextAfter_eq hle hlater hsv]
      exact hu ((hsame u hsu).mpr hmem) v ((hsame v hsv).mpr hv) hne hsu hsv
    · intro hu hmem v hv hne hsu hsv
      rw [← h.nextAfter_eq hle hlater hsu, ← h.nextAfter_eq hle hlater hsv]
      exact hu ((hsame u hsu).mp hmem) v ((hsame v hsv).mp hv) hne
        ((h.survives_iff hle u).mpr hsu) ((h.survives_iff hle v).mpr hsv)
  rw [hleft, hright]
  exact hrest.keeps

/-- If the timer would survive and is gone, it is recurring and was dropped for one with the same
deadline. -/
theorem keeps_of_dropped (h : CollectedOne m now t m₁) (hle : m.next t ≤ now)
    (htimer : t ∈ m.timers)
    (hlater : (m.objects t).recurring = true → now < deadline now (m.objects t).ms)
    {r : List (TimerId × Option β)} {m' : TimerManager β} (hrest : Collected m₁ now r m')
    (hsurvives : m.Survives now t) (hdropped : t ∉ m₁.timers) :
    (∀ u ∈ m.timers, m.Survives now u → u ∈ m'.timers) ↔ m.Apart now := by
  have hrec : (m.objects t).recurring = true := hsurvives.resolve_right (not_lt.mpr hle)
  have hlate := hlater hrec
  have htaken : ∃ u ∈ m.timers, u ≠ t ∧ m.next u = deadline now (m.objects t).ms := by
    by_contra hnone
    refine hdropped (h.mem_self.mpr ⟨hrec, ?_⟩)
    intro u hu hne he
    exact hnone ⟨u, hu, hne, he⟩
  obtain ⟨u, hu, hne, he⟩ := htaken
  refine iff_of_false ?_ ?_
  · intro hkeeps
    exact hdropped (hrest.mem t (hkeeps t htimer hsurvives)).1
  · intro hapart
    refine hapart t htimer u hu (Ne.symm hne) hsurvives (Or.inr (by omega)) ?_
    rw [nextAfter, nextAfter, if_pos hle, if_neg (by omega), he]

/-- The rest of the pass completes the first step. -/
theorem collected (h : CollectedOne m now t m₁) (hord : m.Ordered) (hle : m.next t ≤ now)
    (htimer : t ∈ m.timers) (hexpired : m.expired now = t :: m₁.expired now)
    (hlater : (m.objects t).recurring = true → now < deadline now (m.objects t).ms)
    {r : List (TimerId × Option β)} {m' : TimerManager β} (hrest : Collected m₁ now r m') :
    Collected m now ((t, (m.objects t).cb) :: r) m' := by
  have hout := notMem_expired hexpired hord
  refine ⟨hrest.ordered, hrest.created.trans h.created,
    hrest.previousTime.trans h.previousTime, ?_, ?_, ?_, ?_, ?_⟩
  · rw [hexpired, List.map_cons, hrest.collected]
    congr 1
    apply List.map_congr_left
    intro u hu
    rw [h.other u (fun he => hout (he ▸ hu))]
  · intro u hu
    rw [hexpired] at hu
    rcases List.mem_cons.mp hu with rfl | hu
    · rw [hrest.frame u hout, h.same]
    · rw [hrest.object u hu, h.other u (fun he => hout (he ▸ hu))]
  · intro u hu
    rw [hexpired, List.mem_cons, not_or] at hu
    rw [hrest.frame u hu.2, h.other u hu.1]
  · intro u hu
    obtain ⟨hmem, hsurvives⟩ := hrest.mem u hu
    rw [h.survives_iff hle] at hsurvives
    by_cases hut : u = t
    · subst hut
      exact ⟨htimer, hsurvives⟩
    · exact ⟨(h.mem_other u hut).mp hmem, hsurvives⟩
  · by_cases hkept : m.Survives now t → t ∈ m₁.timers
    · exact h.keeps_of_kept hle htimer hlater hrest hkept
    · obtain ⟨hsurvives, hdropped⟩ := Classical.not_imp.mp hkept
      exact h.keeps_of_dropped hle htimer hlater hrest hsurvives hdropped

end CollectedOne

/-- When no timer is due, the pass is over. -/
theorem collected_none {m : TimerManager β} (hord : m.Ordered) {now : Int}
    (h : m.due now false = none) : Collected m now [] m := by
  have hlate := due_none hord h
  have hexpired : m.expired now = [] := by
    apply List.filter_eq_nil_iff.mpr
    intro t ht
    simpa using hlate t ht
  refine ⟨hord, rfl, rfl, ?_, ?_, fun _ _ => rfl, ?_, ?_⟩
  · rw [hexpired]
    rfl
  · intro t ht
    rw [hexpired] at ht
    cases ht
  · exact fun t ht => ⟨ht, Or.inr (hlate t ht)⟩
  · refine iff_of_true (fun t ht _ => ht) ?_
    intro t ht u hu hne _ _ he
    rw [nextAfter, nextAfter, if_neg (not_le.mpr (hlate t ht)),
      if_neg (not_le.mpr (hlate u hu))] at he
    exact hne (KeyedSet.Ordered.eq_of_key_eq hord ht hu he)

/-- As many iterations as there are timers that are due end the loop, and then all of them
have been collected. -/
theorem collectLoop_spec {m : TimerManager β} (hord : m.Ordered) {now : Int} {fuel : Nat}
    (hfuel : (m.expired now).length ≤ fuel)
    (hlater : m.Later now) :
    ∃ r m', collectLoop now false fuel m = some (r, m') ∧ Collected m now r m' := by
  induction fuel generalizing m with
  | zero =>
    have hnil : m.expired now = [] := List.eq_nil_of_length_eq_zero (Nat.le_zero.mp hfuel)
    have hdue : m.due now false = none := by
      cases hdue : m.due now false with
      | none => rfl
      | some t =>
        obtain ⟨ts, htimers, hle⟩ := due_some hdue
        rw [expired, htimers, List.filter_cons_of_pos (by simpa using hle)] at hnil
        cases hnil
    exact ⟨[], m, by simp [collectLoop, hdue], collected_none hord hdue⟩
  | succ fuel ih =>
    cases hdue : m.due now false with
    | none => exact ⟨[], m, by simp [collectLoop, hdue], collected_none hord hdue⟩
    | some t =>
      obtain ⟨ts, htimers, hle⟩ := due_some hdue
      have htimer : t ∈ m.timers := htimers ▸ List.mem_cons_self
      have hone := collectOne_spec hord now t
      have hexpired := expired_collectOne hord hdue (hlater t htimer hle)
      have hfuel' : ((m.collectOne now t).expired now).length ≤ fuel := by
        rw [hexpired, List.length_cons] at hfuel
        omega
      have hlater' : (m.collectOne now t).Later now := by
        intro u hu hdue' hrec
        obtain ⟨hrecurring, hms⟩ := (m.collectOne_fields now t).2.2 u
        rw [hrecurring] at hrec
        rw [hms]
        have hmem : u ∈ m.expired now := by
          rw [hexpired]
          exact List.mem_cons_of_mem t (List.mem_filter.mpr ⟨hu, decide_eq_true hdue'⟩)
        obtain ⟨hin, hle'⟩ := List.mem_filter.mp hmem
        exact hlater u hin (of_decide_eq_true hle') hrec
      obtain ⟨r, m', hloop, hrest⟩ := ih hone.ordered hfuel' hlater'
      refine ⟨_, m', ?_, hone.collected hord hle htimer hexpired (hlater t htimer hle) hrest⟩
      simp [collectLoop, hdue, hloop]

/-- A recurring timer that would be due again at once is lost if the pass ends. -/
theorem collectLoop_early {m m' : TimerManager β} (hord : m.Ordered) {now : Int} {fuel : Nat}
    {r : List (TimerId × Option β)} (hrun : collectLoop now false fuel m = some (r, m')) {t : TimerId}
    (hrec : (m.objects t).recurring = true) (hdue : m.next t ≤ now)
    (hearly : deadline now (m.objects t).ms ≤ now) : t ∉ m'.timers := by
  induction fuel generalizing m r with
  | zero =>
    rw [collectLoop] at hrun
    split at hrun
    · cases hrun
    · next hnone =>
      cases hrun
      intro hin
      have hlate := due_none hord (Option.not_isSome_iff_eq_none.mp hnone) t hin
      omega
  | succ fuel ih =>
    rw [collectLoop] at hrun
    split at hrun
    · next hnone =>
      cases hrun
      intro hin
      have hlate := due_none hord hnone t hin
      omega
    · next u _ =>
      obtain ⟨⟨r', m₁⟩, hrest, heq⟩ := Option.map_eq_some_iff.mp hrun
      cases heq
      have hone := collectOne_spec hord now u
      have hfields := (m.collectOne_fields now u).2.2 t
      refine ih hone.ordered hrest (hfields.1.trans hrec) ?_ (hfields.2 ▸ hearly)
      rcases eq_or_ne t u with rfl | hne
      · exact (hone.next_self hrec).trans_le hearly
      · exact (hone.next_other hne).trans_le hdue

end CoroutineRpc.Coroutine.TimerManager
