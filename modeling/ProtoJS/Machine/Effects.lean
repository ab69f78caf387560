import Mathlib

/-! # Actions with a log

An action changes a state and returns a value or throws; the state it throws in is kept. Beside the
state there may be a log to which events are recorded. Three judgements about an action are composed
as the action is: what it returns with which events from every state; that whatever it records, also
before it throws, satisfies a predicate; and what holds of the state after it, if something holds of
the state before.
-/

namespace ProtoJS.Effects

universe u

variable {ε σ α β E : Type u}

/-- The action, with the log beside its state. -/
def lift (a : EStateM ε σ α) : EStateM ε (σ × List E) α := fun s =>
  match a s.1 with
  | .ok x s' => .ok x (s', s.2)
  | .error e s' => .error e (s', s.2)

def record (event : E) : EStateM ε (σ × List E) PUnit := fun s => .ok .unit (s.1, s.2 ++ [event])

/-- Runs an action and returns what it throws. -/
def attempt (a : EStateM ε σ α) : EStateM ε σ (Except ε α) := fun s =>
  match a s with
  | .ok x s' => .ok (.ok x) s'
  | .error e s' => .ok (.error e) s'

/-- The state an action ends in. -/
def final : EStateM.Result ε σ α → σ
  | .ok _ s => s
  | .error _ s => s

section Always

/-- The action returns this value from every state. -/
def Always (a : EStateM ε σ α) (x : α) : Prop := ∀ s, ∃ s', a s = .ok x s'

variable {a : EStateM ε σ α} {x : α} {f : α → EStateM ε σ β} {y : β}

theorem Always.pure (x : α) : Always (pure x : EStateM ε σ α) x := fun s => ⟨s, rfl⟩

theorem Always.bind (first : Always a x) (next : Always (f x) y) : Always (a >>= f) y := by
  intro s
  obtain ⟨s', ran⟩ := first s
  obtain ⟨s'', ran'⟩ := next s'
  refine ⟨s'', ?_⟩
  simp only [Bind.bind, EStateM.bind, ran, ran']

end Always

section Returns

/-- From every state the action returns this value, and records these events. -/
def Returns (a : EStateM ε (σ × List E) α) (x : α) (events : List E) : Prop :=
  ∀ s, ∃ s', a s = .ok x (s', s.2 ++ events)

variable {a : EStateM ε (σ × List E) α} {x : α} {events events' : List E}
  {f : α → EStateM ε (σ × List E) β} {y : β}

theorem Returns.pure (x : α) : Returns (pure x : EStateM ε (σ × List E) α) x [] :=
  fun s => ⟨s.1, by rw [List.append_nil]; rfl⟩

theorem Returns.record (event : E) :
    Returns (record event : EStateM ε (σ × List E) PUnit) .unit [event] := fun s => ⟨s.1, rfl⟩

theorem Returns.lift {a : EStateM ε σ α} (always : Always a x) :
    Returns (lift a : EStateM ε (σ × List E) α) x [] := by
  intro s
  obtain ⟨s', ran⟩ := always s.1
  refine ⟨s', ?_⟩
  simp only [Effects.lift, ran, List.append_nil]

theorem Returns.bind (first : Returns a x events) (next : Returns (f x) y events') :
    Returns (a >>= f) y (events ++ events') := by
  intro s
  obtain ⟨s', ran⟩ := first s
  obtain ⟨s'', ran'⟩ := next (s', s.2 ++ events)
  refine ⟨s'', ?_⟩
  simp only [Bind.bind, EStateM.bind, ran, ran', List.append_assoc]

theorem Returns.attempt (returns : Returns a x events) :
    Returns (attempt a) (.ok x) events := by
  intro s
  obtain ⟨s', ran⟩ := returns s
  exact ⟨s', by simp only [Effects.attempt, ran]⟩

/-- A loop whose turns each return and record what they do whatever came before. -/
theorem Returns.foldlM {ι : Type u} {step : β → ι → EStateM ε (σ × List E) β} {next : β → ι → β}
    {record : ι → List E} {l : List ι}
    (turn : ∀ i ∈ l, ∀ acc, Returns (step acc i) (next acc i) (record i)) (start : β) :
    Returns (l.foldlM step start) (l.foldl next start) (l.flatMap record) := by
  induction l generalizing start with
  | nil => exact Returns.pure start
  | cons i l ih =>
    rw [List.forall_mem_cons] at turn
    rw [List.foldlM_cons, List.foldl_cons, List.flatMap_cons]
    exact (turn.1 start).bind (ih turn.2 (next start i))

/-- A silent action before another one. -/
theorem Returns.silently (first : Returns a x []) (next : Returns (f x) y events) :
    Returns (a >>= f) y events := first.bind next

theorem Returns.foldlM_silently {ι : Type u} {step : β → ι → EStateM ε (σ × List E) β}
    {next : β → ι → β} {l : List ι}
    (turn : ∀ i ∈ l, ∀ acc, Returns (step acc i) (next acc i) []) (start : β) :
    Returns (l.foldlM step start) (l.foldl next start) [] := by
  have ran := Returns.foldlM turn start
  rwa [List.flatMap_eq_nil_iff.mpr fun _ _ => rfl] at ran

end Returns

section Ensures

/-- A value that the action returns satisfies the predicate. -/
def Ensures (Q : α → Prop) (a : EStateM ε σ α) : Prop := ∀ s x s', a s = .ok x s' → Q x

variable {Q : α → Prop} {a : EStateM ε σ α} {f : α → EStateM ε σ β} {R : β → Prop}

theorem Ensures.pure {x : α} (holds : Q x) : Ensures Q (pure x : EStateM ε σ α) := by
  intro s y s' ran
  cases ran
  exact holds

theorem Ensures.throw (e : ε) : Ensures Q (throw e : EStateM ε σ α) := by
  intro s x s' ran
  cases ran

theorem Ensures.bind (next : ∀ x, Ensures R (f x)) : Ensures R (a >>= f) := by
  intro s y s'' ran
  simp only [Bind.bind, EStateM.bind] at ran
  cases first : a s with
  | error e s' =>
    rw [first] at ran
    cases ran
  | ok x s' =>
    rw [first] at ran
    exact next x s' y s'' ran

/-- A loop, with what holds of the turns already done and of the value. -/
theorem Ensures.foldlM {ι : Type u} {step : β → ι → EStateM ε σ β} (holds : List ι → β → Prop)
    (turn : ∀ done i acc, holds done acc → Ensures (holds (done ++ [i])) (step acc i))
    {start : β} (begins : holds [] start) (l : List ι) :
    Ensures (holds l) (l.foldlM step start) := by
  induction l using List.reverseRecOn with
  | nil => exact Ensures.pure begins
  | append_singleton l i ih =>
    intro s y s'' ran
    simp only [List.foldlM_append, List.foldlM_cons, List.foldlM_nil, bind_pure] at ran
    simp only [Bind.bind, EStateM.bind] at ran
    cases before : l.foldlM step start s with
    | error e s' =>
      rw [before] at ran
      cases ran
    | ok acc s' =>
      rw [before] at ran
      exact turn l i acc (ih s acc s' before) s' y s'' ran

end Ensures

section Logs

/-- Whatever the action records satisfies the predicate. -/
def Logs (P : E → Prop) (a : EStateM ε (σ × List E) α) : Prop :=
  ∀ s, ∃ events, (final (a s)).2 = s.2 ++ events ∧ ∀ event ∈ events, P event

variable {P : E → Prop} {a : EStateM ε (σ × List E) α} {f : α → EStateM ε (σ × List E) β}

theorem Logs.pure (x : α) : Logs P (pure x : EStateM ε (σ × List E) α) :=
  fun s => ⟨[], by rw [List.append_nil]; rfl, by simp⟩

theorem Logs.throw (e : ε) : Logs P (throw e : EStateM ε (σ × List E) α) :=
  fun s => ⟨[], by rw [List.append_nil]; rfl, by simp⟩

theorem Logs.record {event : E} (allowed : P event) :
    Logs P (record event : EStateM ε (σ × List E) PUnit) :=
  fun s => ⟨[event], rfl, by simpa using allowed⟩

theorem Logs.lift (a : EStateM ε σ α) : Logs P (lift a : EStateM ε (σ × List E) α) := by
  intro s
  refine ⟨[], ?_, by simp⟩
  rw [List.append_nil, Effects.lift]
  cases a s.1 with
  | ok x s' => rfl
  | error e s' => rfl

/-- The next action is run only on a value that the first can return. -/
theorem Logs.bind_ensures {Q : α → Prop} (first : Logs P a) (ensures : Ensures Q a)
    (next : ∀ x, Q x → Logs P (f x)) : Logs P (a >>= f) := by
  intro s
  obtain ⟨events, recorded, allowed⟩ := first s
  simp only [Bind.bind, EStateM.bind]
  cases ran : a s with
  | error e s' =>
    rw [ran] at recorded
    exact ⟨events, recorded, allowed⟩
  | ok x s' =>
    rw [ran] at recorded
    obtain ⟨events', recorded', allowed'⟩ := next x (ensures s x s' ran) s'
    refine ⟨events ++ events', ?_, List.forall_mem_append.mpr ⟨allowed, allowed'⟩⟩
    rw [recorded', show s'.2 = s.2 ++ events from recorded, List.append_assoc]

theorem Logs.bind (first : Logs P a) (next : ∀ x, Logs P (f x)) : Logs P (a >>= f) :=
  first.bind_ensures (fun _ _ _ _ => True.intro) fun x _ => next x

theorem Logs.attempt (logs : Logs P a) : Logs P (attempt a) := by
  intro s
  obtain ⟨events, recorded, allowed⟩ := logs s
  refine ⟨events, ?_, allowed⟩
  rw [← recorded, Effects.attempt]
  cases a s with
  | ok x s' => rfl
  | error e s' => rfl

theorem Logs.foldlM {ι : Type u} {step : β → ι → EStateM ε (σ × List E) β} {l : List ι}
    (turn : ∀ i ∈ l, ∀ acc, Logs P (step acc i)) (start : β) : Logs P (l.foldlM step start) := by
  induction l generalizing start with
  | nil => exact Logs.pure start
  | cons i l ih =>
    rw [List.forall_mem_cons] at turn
    rw [List.foldlM_cons]
    exact (turn.1 start).bind fun acc => ih turn.2 acc

/-- A loop that ends with an exception at the first element that does not go on. -/
theorem Logs.foldlM_until {ι : Type u} {step : β → ι → EStateM ε (σ × List E) β} {l : List ι}
    {goes : ι → Bool} (turn : ∀ i ∈ l.takeWhile goes, ∀ acc, Logs P (step acc i))
    (stops : ∀ i, goes i = false → ∀ acc, ∃ e, step acc i = MonadExcept.throw e) (start : β) :
    Logs P (l.foldlM step start) := by
  induction l generalizing start with
  | nil => exact Logs.pure start
  | cons i l ih =>
    rw [List.foldlM_cons]
    cases goesOn : goes i with
    | false =>
      obtain ⟨e, thrown⟩ := stops i goesOn start
      rw [thrown]
      exact Logs.throw e
    | true =>
      rw [List.takeWhile_cons_of_pos goesOn, List.forall_mem_cons] at turn
      exact (turn.1 start).bind fun acc => ih turn.2 acc

end Logs

section Records

/-- From every state the action records the event, also where it throws later. -/
def Records (event : E) (a : EStateM ε (σ × List E) α) : Prop := ∀ s, event ∈ (final (a s)).2

variable {P : E → Prop} {event : E} {a : EStateM ε (σ × List E) α}
  {f : α → EStateM ε (σ × List E) β}

theorem Returns.records {x : α} {events : List E} (returns : Returns a x events)
    (member : event ∈ events) : Records event a := by
  intro s
  obtain ⟨s', ran⟩ := returns s
  rw [ran]
  exact List.mem_append_right s.2 member

/-- What is recorded stays recorded. -/
theorem Records.bind (records : Records event a) (grows : ∀ x, Logs (fun _ => True) (f x)) :
    Records event (a >>= f) := by
  intro s
  have recorded := records s
  simp only [Bind.bind, EStateM.bind]
  cases ran : a s with
  | error e s' =>
    rw [ran] at recorded
    exact recorded
  | ok x s' =>
    rw [ran] at recorded
    obtain ⟨events, later, _⟩ := grows x s'
    dsimp only
    rw [later]
    exact List.mem_append_left events recorded

theorem Records.after {x : α} {events : List E} (first : Returns a x events)
    (records : Records event (f x)) : Records event (a >>= f) := by
  intro s
  obtain ⟨s', ran⟩ := first s
  simp only [Bind.bind, EStateM.bind, ran]
  exact records _

/-- A loop comes to each element before which all turns return. -/
theorem Records.foldlM {ι : Type u} {step : β → ι → EStateM ε (σ × List E) β} {l : List ι}
    {goes : ι → Bool}
    (turn : ∀ i ∈ l.takeWhile goes, ∀ acc, ∃ next events, Returns (step acc i) next events)
    (grows : ∀ acc i, Logs (fun _ => True) (step acc i)) {i : ι} (member : i ∈ l.takeWhile goes)
    (records : ∀ acc, Records event (step acc i)) (start : β) :
    Records event (l.foldlM step start) := by
  induction l generalizing start with
  | nil => cases member
  | cons first l ih =>
    rw [List.takeWhile_cons] at turn member
    cases goesOn : goes first with
    | false =>
      rw [goesOn] at member
      cases member
    | true =>
      rw [goesOn, if_pos rfl] at turn member
      rw [List.forall_mem_cons] at turn
      rw [List.foldlM_cons]
      rcases List.mem_cons.mp member with rfl | later
      · refine (records start).bind fun acc => ?_
        exact Logs.foldlM (fun i _ acc => grows acc i) acc
      · obtain ⟨next, events, returns⟩ := turn.1 start
        exact Records.after returns (ih turn.2 later next)

/-- What an action always records, it logs. -/
theorem Logs.of_records (logs : Logs P a) (records : Records event a) (s : σ) : P event := by
  have recorded := records (s, [])
  obtain ⟨events, all, allowed⟩ := logs (s, [])
  rw [all] at recorded
  exact allowed event recorded

end Records

section Triples

/-- From a state of the first kind the action returns in one of the second, or throws in one of the
third. -/
def Triple (P : σ → Prop) (a : EStateM ε σ α) (Q : α → σ → Prop)
    (T : ε → σ → Prop) : Prop :=
  ∀ s, P s →
    match a s with
    | .ok x s' => Q x s'
    | .error e s' => T e s'

variable {P P' : σ → Prop} {Q Q' : α → σ → Prop} {R : β → σ → Prop} {T T' : ε → σ → Prop}
  {a : EStateM ε σ α} {f : α → EStateM ε σ β}

theorem Triple.pure {x : α} (holds : ∀ s, P s → Q x s) :
    Triple P (pure x : EStateM ε σ α) Q T := holds

theorem Triple.throw {e : ε} (holds : ∀ s, P s → T e s) :
    Triple P (throw e : EStateM ε σ α) Q T := holds

theorem Triple.weaken (triple : Triple P a Q T) (pre : ∀ s, P' s → P s)
    (post : ∀ x s, Q x s → Q' x s) (thrown : ∀ e s, T e s → T' e s) : Triple P' a Q' T' := by
  intro s holds
  have ran := triple s (pre s holds)
  cases result : a s with
  | ok x s' =>
    rw [result] at ran
    exact post x s' ran
  | error e s' =>
    rw [result] at ran
    exact thrown e s' ran

/-- The precondition may come with a fact that is no matter of the state. -/
theorem Triple.assuming {fact : Prop} (triple : fact → Triple P a Q T) :
    Triple (fun s => fact ∧ P s) a Q T := fun s holds => triple holds.1 s holds.2

/-- The precondition may be no matter of the state at all. -/
theorem Triple.of_fact {fact : Prop} (triple : fact → Triple (fun _ => True) a Q T) :
    Triple (fun _ => fact) a Q T := fun s holds => triple holds s trivial

theorem Triple.bind (first : Triple P a Q T) (next : ∀ x, Triple (Q x) (f x) R T) :
    Triple P (a >>= f) R T := by
  intro s holds
  have ran := first s holds
  simp only [Bind.bind, EStateM.bind]
  cases result : a s with
  | ok x s' =>
    rw [result] at ran
    exact next x s' ran
  | error e s' =>
    rw [result] at ran
    exact ran

/-- What is attempted does not throw. -/
theorem Triple.attempt (triple : Triple P a Q T') :
    Triple P (attempt a)
      (fun outcome s => match outcome with
        | .ok x => Q x s
        | .error e => T' e s) T := by
  intro s holds
  have ran := triple s holds
  rw [Effects.attempt]
  cases result : a s with
  | ok x s' =>
    rw [result] at ran
    exact ran
  | error e s' =>
    rw [result] at ran
    exact ran

/-- An attempt never throws. -/
theorem Triple.attempt_any (a : EStateM ε σ α) :
    Triple (fun _ => True) (Effects.attempt a) (fun _ _ => True) T := by
  have any : Triple (fun _ => True) a (fun _ _ => True) (fun _ _ => True) := by
    intro s _
    cases a s with
    | ok x s' => trivial
    | error e s' => trivial
  apply any.attempt.weaken (fun _ holds => holds) _ fun _ _ holds => holds
  exact fun _ _ _ => trivial

/-- A loop, with what holds of the turns already done, of the value and of the state. -/
theorem Triple.foldlM {ι : Type u} {step : β → ι → EStateM ε σ β} {I : List ι → β → σ → Prop}
    {l : List ι} (turn : ∀ done, ∀ i ∈ l, ∀ acc,
      Triple (I done acc) (step acc i) (I (done ++ [i])) T) (start : β) :
    Triple (I [] start) (l.foldlM step start) (I l) T := by
  induction l using List.reverseRecOn with
  | nil => exact Triple.pure fun _ before => before
  | append_singleton l i ih =>
    rw [List.foldlM_append]
    apply (ih fun done i member => turn done i (List.mem_append_left _ member)).bind
    intro acc
    simp only [List.foldlM_cons, List.foldlM_nil, bind_pure]
    exact turn l i (List.mem_append_right _ (List.mem_singleton_self i)) acc

/-- What holds of the log holds after an action that does not touch it. -/
theorem Triple.lift {L : List E → Prop} (a : EStateM ε σ α) :
    Triple (fun s => L s.2) (lift a : EStateM ε (σ × List E) α) (fun _ s => L s.2)
      (fun _ s => L s.2) := by
  intro s holds
  rw [Effects.lift]
  cases a s.1 with
  | ok x s' => exact holds
  | error e s' => exact holds

end Triples

end ProtoJS.Effects
