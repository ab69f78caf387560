import ProtoJS.Machine.Run
import ProtoJS.Npm.PackageMetadata

/-! # The cache of package metadata

`fetchPackage` looks into the cache under the lock, sends its request without it and locks again to
store the answer. An answer that was requested before a `clearCache` and is stored behind it is
handed out later.
-/

namespace ProtoJS.Npm.NPMRegistry.Cache

open Strings

/-- A call of `fetchPackage` and the step at which it starts. -/
structure FetchCall where
  packageName : Text
  registry : Text
  started : ℕ
deriving DecidableEq, Repr

/-- The cache key, which is the URL of the request too. -/
def FetchCall.key (call : FetchCall) : Text := call.registry ++ '/' :: call.packageName

/-- The cache holds the time of storing; the step of the request is kept beside it. -/
structure Entry (μ : Type) where
  metadata : μ
  stored : ℕ
  requested : ℕ
deriving DecidableEq, Repr

/-- Where a thread is. -/
inductive Phase (μ : Type) where
  | idle
  | testing (call : FetchCall)
  | looking (call : FetchCall)
  | requesting (call : FetchCall)
  | waiting (call : FetchCall) (requested : ℕ)
  | answered (call : FetchCall) (requested : ℕ) (metadata : μ)
  | storing (call : FetchCall) (requested : ℕ) (metadata : μ)
  | clearing (begun : ℕ)
  | cleared (begun : ℕ)
deriving DecidableEq, Repr

/-- What a call of `fetchPackage` has returned. -/
structure Return (μ : Type) where
  started : ℕ
  requested : ℕ
  metadata : μ
deriving DecidableEq, Repr

/-- A call of `clearCache` that has returned. -/
structure Clear where
  begun : ℕ
  returned : ℕ
deriving DecidableEq, Repr

/-- The globals of the registry and its threads. The steps are counted; `emptied` holds the calls of
`clearCache` that have emptied the cache, whether they have returned or not. -/
structure State (μ : Type) where
  cache : Text → Option (Entry μ) := fun _ => none
  cacheTTL : ℤ := 300
  /-- The steady clock, in nanoseconds. -/
  clock : ℕ := 0
  phase : ℕ → Phase μ := fun _ => .idle
  now : ℕ := 0
  returns : List (Return μ) := []
  clears : List Clear := []
  emptied : List ℕ := []

/-- The steps of the threads; a locked region is one of them, and so is the whole of
`setCacheTTL`. -/
inductive Action where
  | fetchPackage (thread : ℕ) (packageName registry : Text)
  | testTTL (thread : ℕ)
  | find (thread : ℕ)
  | request (thread : ℕ)
  | respond (thread : ℕ) (json : Text)
  | store (thread : ℕ)
  | clearCache (thread : ℕ)
  | clear (thread : ℕ)
  | returnClear (thread : ℕ)
  | setCacheTTL (ttl : ℤ)
  | elapse (duration : ℕ)
deriving DecidableEq, Repr

namespace State

variable {μ : Type}

def enter (s : State μ) (thread : ℕ) (phase : Phase μ) : State μ :=
  { s with phase := Function.update s.phase thread phase, now := s.now + 1 }

def handOut (s : State μ) (thread : ℕ) (answer : Return μ) : State μ :=
  { s with returns := answer :: s.returns }.enter thread .idle

/-- The locked region that stores an answer, with which the call returns. -/
def store (s : State μ) (thread : ℕ) (call : FetchCall) (requested : ℕ) (metadata : μ) : State μ :=
  { s with cache := Function.update s.cache call.key (some ⟨metadata, s.clock, requested⟩) }.handOut
    thread ⟨call.started, requested, metadata⟩

def returnClear (s : State μ) (thread begun : ℕ) : State μ :=
  { s with clears := ⟨begun, s.now⟩ :: s.clears }.enter thread .idle

/-- `elapsed <= g_cacheTTL`. -/
def Fresh (s : State μ) (entry : Entry μ) : Prop :=
  (s.clock : ℤ) - entry.stored ≤ s.cacheTTL * 10 ^ 9

instance (s : State μ) (entry : Entry μ) : Decidable (s.Fresh entry) :=
  inferInstanceAs (Decidable (_ ≤ _))

end State

variable {μ : Type} (parse : Text → μ) (noMetadata : μ)

/-- The second part of `fetchPackage`, from the test behind the request on, is reached with an
answer that is not empty. -/
def step (s : State μ) : Action → Option (State μ)
  | .fetchPackage thread packageName registry =>
    match s.phase thread with
    | .idle => some (s.enter thread (.testing ⟨packageName, registry, s.now⟩))
    | _ => none
  | .testTTL thread =>
    match s.phase thread with
    | .testing call =>
      some (s.enter thread (if 0 < s.cacheTTL then .looking call else .requesting call))
    | .answered call requested metadata =>
      if 0 < s.cacheTTL then some (s.enter thread (.storing call requested metadata))
      else some (s.handOut thread ⟨call.started, requested, metadata⟩)
    | _ => none
  | .find thread =>
    match s.phase thread with
    | .looking call =>
      match s.cache call.key with
      | some entry =>
        if s.Fresh entry then
          some (s.handOut thread ⟨call.started, entry.requested, entry.metadata⟩)
        else some (s.enter thread (.requesting call))
      | none => some (s.enter thread (.requesting call))
    | _ => none
  | .request thread =>
    match s.phase thread with
    | .requesting call => some (s.enter thread (.waiting call s.now))
    | _ => none
  | .respond thread json =>
    match s.phase thread with
    | .waiting call requested =>
      if json = [] then some (s.handOut thread ⟨call.started, requested, noMetadata⟩)
      else some (s.enter thread (.answered call requested (parse json)))
    | _ => none
  | .store thread =>
    match s.phase thread with
    | .storing call requested metadata => some (s.store thread call requested metadata)
    | _ => none
  | .clearCache thread =>
    match s.phase thread with
    | .idle => some (s.enter thread (.clearing s.now))
    | _ => none
  | .clear thread =>
    match s.phase thread with
    | .clearing begun =>
      some ({ s with cache := fun _ => none, emptied := begun :: s.emptied }.enter thread
        (.cleared begun))
    | _ => none
  | .returnClear thread =>
    match s.phase thread with
    | .cleared begun => some (s.returnClear thread begun)
    | _ => none
  | .setCacheTTL ttl => some { s with cacheTTL := ttl, now := s.now + 1 }
  | .elapse duration => some { s with clock := s.clock + duration, now := s.now + 1 }

/-- Any number of threads, none of which has called anything yet. -/
def machine : Machine (State μ) Action where
  initial := {}
  Enabled s a := (step parse noMetadata s a).isSome
  next s a := (step parse noMetadata s a).getD s

instance (s : State μ) (a : Action) : Decidable ((machine parse noMetadata).Enabled s a) :=
  inferInstanceAs (Decidable ((step parse noMetadata s a).isSome = true))

/-- No call that starts behind a `clearCache` that has returned hands out metadata that were
requested in front of it. -/
def Effective (s : State μ) : Prop :=
  ∀ answer ∈ s.returns, ∀ clear ∈ s.clears,
    clear.returned < answer.started → clear.begun ≤ answer.requested

instance (s : State μ) : Decidable (Effective s) :=
  inferInstanceAs (Decidable (∀ answer ∈ s.returns, ∀ clear ∈ s.clears, _ → _))

/-- An answer that is about to be stored was not requested in front of a `clearCache` that has
emptied the cache since. -/
def Phase.Timely (emptied : List ℕ) : Phase μ → Prop
  | .storing _ requested _ => ∀ begun ∈ emptied, begun ≤ requested
  | _ => True

def StoresFresh (s : State μ) : Action → Prop
  | .store thread => (s.phase thread).Timely s.emptied
  | _ => True

instance (emptied : List ℕ) : (phase : Phase μ) → Decidable (phase.Timely emptied)
  | .storing _ requested _ => inferInstanceAs (Decidable (∀ begun ∈ emptied, begun ≤ requested))
  | .idle | .testing _ | .looking _ | .requesting _ | .waiting _ _ | .answered _ _ _
  | .clearing _ | .cleared _ => isTrue trivial

instance (s : State μ) : (a : Action) → Decidable (StoresFresh s a)
  | .store thread => inferInstanceAs (Decidable ((s.phase thread).Timely s.emptied))
  | .fetchPackage .. | .testTTL _ | .find _ | .request _ | .respond .. | .clearCache _ | .clear _
  | .returnClear _ | .setCacheTTL _ | .elapse _ => isTrue trivial

section Steps

variable {parse noMetadata} {s t : State μ} {a : Action}

/-- How a thread goes on where nothing else changes. -/
inductive Advance (now : ℕ) : Phase μ → Phase μ → Prop
  | call (packageName registry : Text) : Advance now .idle (.testing ⟨packageName, registry, now⟩)
  | look (call : FetchCall) : Advance now (.testing call) (.looking call)
  | skip (call : FetchCall) : Advance now (.testing call) (.requesting call)
  | miss (call : FetchCall) : Advance now (.looking call) (.requesting call)
  | send (call : FetchCall) : Advance now (.requesting call) (.waiting call now)
  | receive (call : FetchCall) (requested : ℕ) (metadata : μ) :
      Advance now (.waiting call requested) (.answered call requested metadata)
  | keep (call : FetchCall) (requested : ℕ) (metadata : μ) :
      Advance now (.answered call requested metadata) (.storing call requested metadata)
  | clear : Advance now .idle (.clearing now)

/-- The effect of a step. -/
inductive Step (s : State μ) : Action → State μ → Prop
  | move {a : Action} {thread : ℕ} {phase : Phase μ}
      (advance : Advance s.now (s.phase thread) phase) : Step s a (s.enter thread phase)
  | answer {a : Action} {thread : ℕ} {call : FetchCall} {requested : ℕ} {metadata : μ}
      (own : s.phase thread = .waiting call requested ∨
        s.phase thread = .answered call requested metadata) :
      Step s a (s.handOut thread ⟨call.started, requested, metadata⟩)
  | hit {thread : ℕ} {call : FetchCall} {entry : Entry μ} (looking : s.phase thread = .looking call)
      (found : s.cache call.key = some entry) (fresh : s.Fresh entry) :
      Step s (.find thread) (s.handOut thread ⟨call.started, entry.requested, entry.metadata⟩)
  | store {thread : ℕ} {call : FetchCall} {requested : ℕ} {metadata : μ}
      (storing : s.phase thread = .storing call requested metadata) :
      Step s (.store thread) (s.store thread call requested metadata)
  | clear {thread begun : ℕ} (clearing : s.phase thread = .clearing begun) :
      Step s (.clear thread) ({ s with
        cache := fun _ => none, emptied := begun :: s.emptied }.enter thread (.cleared begun))
  | returnClear {thread begun : ℕ} (cleared : s.phase thread = .cleared begun) :
      Step s (.returnClear thread) (s.returnClear thread begun)
  | other {a : Action} (ttl : ℤ) (clock : ℕ) :
      Step s a { s with cacheTTL := ttl, clock := clock, now := s.now + 1 }

theorem step_eq_some (stepped : step parse noMetadata s a = some t) : Step s a t := by
  cases a with
  | fetchPackage thread packageName registry =>
    simp only [step] at stepped
    split at stepped
    · rename_i idle
      cases stepped
      exact .move (idle ▸ .call packageName registry)
    · cases stepped
  | testTTL thread =>
    simp only [step] at stepped
    split at stepped
    · rename_i call testing
      cases stepped
      split_ifs
      · exact .move (testing ▸ .look call)
      · exact .move (testing ▸ .skip call)
    · rename_i call requested metadata answered
      split_ifs at stepped
      · cases stepped
        exact .move (answered ▸ .keep call requested metadata)
      · cases stepped
        exact .answer (.inr answered)
    · cases stepped
  | find thread =>
    simp only [step] at stepped
    split at stepped
    · rename_i call looking
      split at stepped
      · rename_i entry found
        split_ifs at stepped with fresh
        · cases stepped
          exact .hit looking found fresh
        · cases stepped
          exact .move (looking ▸ .miss call)
      · cases stepped
        exact .move (looking ▸ .miss call)
    · cases stepped
  | request thread =>
    simp only [step] at stepped
    split at stepped
    · rename_i call requesting
      cases stepped
      exact .move (requesting ▸ .send call)
    · cases stepped
  | respond thread json =>
    simp only [step] at stepped
    split at stepped
    · rename_i call requested waiting
      split_ifs at stepped
      · cases stepped
        exact .answer (.inl waiting)
      · cases stepped
        exact .move (waiting ▸ .receive call requested _)
    · cases stepped
  | store thread =>
    simp only [step] at stepped
    split at stepped
    · rename_i call requested metadata storing
      cases stepped
      exact .store storing
    · cases stepped
  | clearCache thread =>
    simp only [step] at stepped
    split at stepped
    · rename_i idle
      cases stepped
      exact .move (idle ▸ .clear)
    · cases stepped
  | clear thread =>
    simp only [step] at stepped
    split at stepped
    · rename_i begun clearing
      cases stepped
      exact .clear clearing
    · cases stepped
  | returnClear thread =>
    simp only [step] at stepped
    split at stepped
    · rename_i begun cleared
      cases stepped
      exact .returnClear cleared
    · cases stepped
  | setCacheTTL ttl =>
    cases stepped
    exact .other ttl s.clock
  | elapse duration =>
    cases stepped
    exact .other s.cacheTTL (s.clock + duration)

theorem step_of_enabled (enabled : (machine parse noMetadata).Enabled s a) :
    Step s a ((machine parse noMetadata).next s a) := by
  obtain ⟨t, stepped⟩ := Option.isSome_iff_exists.mp enabled
  have next : (machine parse noMetadata).next s a = t := by
    change (step parse noMetadata s a).getD s = t
    rw [stepped, Option.getD_some]
  rw [next]
  exact step_eq_some stepped

end Steps

section Invariant

variable {s t : State μ} {a : Action}

/-- What is known of a thread: what it remembers lies in the past, its request was sent after its
start, and a `clearCache` behind its locked region has emptied the cache. -/
def Phase.Sound (emptied : List ℕ) (now : ℕ) : Phase μ → Prop
  | .idle => True
  | .testing call | .looking call | .requesting call => call.started < now
  | .waiting call requested | .answered call requested _ | .storing call requested _ =>
    call.started ≤ requested ∧ requested < now
  | .clearing begun => begun < now
  | .cleared begun => begun < now ∧ begun ∈ emptied

theorem Phase.Sound.mono {emptied later : List ℕ} {now : ℕ} {phase : Phase μ}
    (sound : phase.Sound emptied now) (grows : emptied ⊆ later) : phase.Sound later (now + 1) := by
  cases phase with
  | idle => trivial
  | testing call | looking call | requesting call => exact Nat.lt_succ_of_lt sound
  | waiting call requested | answered call requested _ | storing call requested _ =>
    exact ⟨sound.1, Nat.lt_succ_of_lt sound.2⟩
  | clearing begun => exact Nat.lt_succ_of_lt sound
  | cleared begun => exact ⟨Nat.lt_succ_of_lt sound.1, grows sound.2⟩

theorem Advance.sound {now : ℕ} {emptied : List ℕ} {phase next : Phase μ}
    (advance : Advance now phase next) (sound : phase.Sound emptied now) :
    next.Sound emptied (now + 1) := by
  cases advance with
  | call packageName registry => exact Nat.lt_succ_self now
  | look call | skip call | miss call => exact Nat.lt_succ_of_lt sound
  | send call => exact ⟨le_of_lt sound, Nat.lt_succ_self now⟩
  | receive call requested _ | keep call requested _ => exact ⟨sound.1, Nat.lt_succ_of_lt sound.2⟩
  | clear => exact Nat.lt_succ_self now

/-- What holds in every state: a call of `clearCache` that has emptied the cache has returned, or
its thread is about to. -/
structure Known (s : State μ) : Prop where
  phases : ∀ thread, (s.phase thread).Sound s.emptied s.now
  returns : ∀ answer ∈ s.returns, answer.started < s.now
  clears : ∀ clear ∈ s.clears,
    clear.begun ∈ s.emptied ∧ clear.begun < clear.returned ∧ clear.returned < s.now
  emptied : ∀ begun ∈ s.emptied,
    (∃ clear ∈ s.clears, clear.begun = begun) ∨ ∃ thread, s.phase thread = .cleared begun

variable (known : Known s)
include known

theorem Known.sound_update {thread : ℕ} {phase : Phase μ} {later : List ℕ}
    (grows : s.emptied ⊆ later) (sound : phase.Sound later (s.now + 1)) (other : ℕ) :
    (Function.update s.phase thread phase other).Sound later (s.now + 1) := by
  rcases eq_or_ne other thread with rfl | different
  · rwa [Function.update_self]
  · rw [Function.update_of_ne different]
    exact (known.phases other).mono grows

/-- A thread that has not emptied the cache goes on: the emptied calls stay accounted for. -/
theorem Known.emptied_update {thread : ℕ} {phase : Phase μ}
    (before : ∀ begun, s.phase thread ≠ .cleared begun) {begun : ℕ} (member : begun ∈ s.emptied) :
    (∃ clear ∈ s.clears, clear.begun = begun) ∨
      ∃ other, Function.update s.phase thread phase other = .cleared begun := by
  rcases known.emptied begun member with returned | ⟨other, cleared⟩
  · exact .inl returned
  · have different : other ≠ thread := by
      rintro rfl
      exact before begun cleared
    exact .inr ⟨other, by rwa [Function.update_of_ne different]⟩

theorem Known.enter {thread : ℕ} {phase : Phase μ} (sound : phase.Sound s.emptied (s.now + 1))
    (before : ∀ begun, s.phase thread ≠ .cleared begun) : Known (s.enter thread phase) where
  phases := known.sound_update (List.Subset.refl _) sound
  returns answer member := Nat.lt_succ_of_lt (known.returns answer member)
  clears clear member :=
    have past := known.clears clear member
    ⟨past.1, past.2.1, Nat.lt_succ_of_lt past.2.2⟩
  emptied _ member := known.emptied_update before member

/-- An answer is handed out to a call that has started. -/
theorem Known.handOut {thread : ℕ} {answer : Return μ} (past : answer.started < s.now)
    (before : ∀ begun, s.phase thread ≠ .cleared begun) : Known (s.handOut thread answer) where
  phases := known.sound_update (List.Subset.refl _) trivial
  returns other member := by
    rcases List.mem_cons.mp member with rfl | earlier
    · exact Nat.lt_succ_of_lt past
    · exact Nat.lt_succ_of_lt (known.returns other earlier)
  clears clear member :=
    have past := known.clears clear member
    ⟨past.1, past.2.1, Nat.lt_succ_of_lt past.2.2⟩
  emptied _ member := known.emptied_update before member

omit known in
theorem Known.withCache (known : Known s) (cache : Text → Option (Entry μ)) :
    Known { s with cache := cache } where
  phases := known.phases
  returns := known.returns
  clears := known.clears
  emptied := known.emptied

/-- The start of the call whose own request a thread answers. -/
theorem Known.started_lt {thread requested : ℕ} {call : FetchCall} {metadata : μ}
    (own : s.phase thread = .waiting call requested ∨
      s.phase thread = .answered call requested metadata ∨
      s.phase thread = .storing call requested metadata) :
    call.started ≤ requested ∧ requested < s.now := by
  have sound := known.phases thread
  rcases own with phase | phase | phase
  all_goals
    rw [phase] at sound
    exact sound

theorem Step.keeps_known (stepped : Step s a t) : Known t := by
  cases stepped with
  | @move _ thread phase advance =>
    refine known.enter (advance.sound (known.phases thread)) fun begun cleared => ?_
    rw [cleared] at advance
    cases advance
  | answer own =>
    have bounds := known.started_lt (own.imp_right .inl)
    refine known.handOut (bounds.1.trans_lt bounds.2) fun begun cleared => ?_
    rcases own with phase | phase
    all_goals
      rw [phase] at cleared
      cases cleared
  | @hit thread call entry looking found fresh =>
    have started := known.phases thread
    rw [looking] at started
    exact known.handOut started fun begun cleared => by rw [looking] at cleared; cases cleared
  | @store thread call requested metadata storing =>
    have bounds := known.started_lt (.inr (.inr storing))
    refine (known.withCache _).handOut (bounds.1.trans_lt bounds.2) fun begun cleared => ?_
    rw [storing] at cleared
    cases cleared
  | @clear thread begun clearing =>
    have before : begun < s.now := by
      have sound := known.phases thread
      rw [clearing] at sound
      exact sound
    refine ⟨?_, ?_, ?_, ?_⟩
    · exact known.sound_update (List.subset_cons_self begun _)
        ⟨Nat.lt_succ_of_lt before, List.mem_cons_self⟩
    · exact fun answer member => Nat.lt_succ_of_lt (known.returns answer member)
    · intro clear member
      obtain ⟨emptied, order, past⟩ := known.clears clear member
      exact ⟨List.mem_cons_of_mem begun emptied, order, Nat.lt_succ_of_lt past⟩
    · intro other member
      rcases List.mem_cons.mp member with rfl | earlier
      · exact .inr ⟨thread, Function.update_self ..⟩
      · exact known.emptied_update (fun begun cleared => by rw [clearing] at cleared; cases cleared)
          earlier
  | @returnClear thread begun cleared =>
    have sound := known.phases thread
    rw [cleared] at sound
    refine ⟨known.sound_update (List.Subset.refl _) trivial, ?_, ?_, ?_⟩
    · exact fun answer member => Nat.lt_succ_of_lt (known.returns answer member)
    · intro clear member
      rcases List.mem_cons.mp member with rfl | earlier
      · exact ⟨sound.2, sound.1, Nat.lt_succ_self _⟩
      · obtain ⟨emptied, order, past⟩ := known.clears clear earlier
        exact ⟨emptied, order, Nat.lt_succ_of_lt past⟩
    · intro other member
      rcases known.emptied other member with ⟨clear, returned, same⟩ | ⟨holder, waiting⟩
      · exact .inl ⟨clear, List.mem_cons_of_mem _ returned, same⟩
      · rcases eq_or_ne holder thread with rfl | different
        · rw [cleared] at waiting
          cases waiting
          exact .inl ⟨⟨begun, s.now⟩, List.mem_cons_self, rfl⟩
        · exact .inr ⟨holder, by rw [← waiting]; exact Function.update_of_ne different _ _⟩
  | other ttl clock =>
    refine ⟨?_, ?_, ?_, known.emptied⟩
    · exact fun thread => (known.phases thread).mono (List.Subset.refl _)
    · exact fun answer member => Nat.lt_succ_of_lt (known.returns answer member)
    · intro clear member
      obtain ⟨emptied, order, past⟩ := known.clears clear member
      exact ⟨emptied, order, Nat.lt_succ_of_lt past⟩

end Invariant

section Clearing

variable {parse noMetadata} {s t : State μ} {a : Action}

theorem known_of_reachable (reachable : (machine parse noMetadata).Reachable s) : Known s := by
  have initial : Known (machine parse noMetadata).initial := ⟨fun _ => trivial, nofun, nofun, nofun⟩
  exact reachable.invariant initial fun s a _ enabled known =>
    (step_of_enabled enabled).keeps_known known

/-- Nothing in the cache was requested in front of a call that has emptied it. -/
def CacheFresh (s : State μ) : Prop :=
  ∀ key entry, s.cache key = some entry → ∀ begun ∈ s.emptied, begun ≤ entry.requested

theorem Step.cacheFresh (stepped : Step s a t) (storesFresh : StoresFresh s a)
    (fresh : CacheFresh s) : CacheFresh t := by
  cases stepped with
  | move advance => exact fresh
  | answer own => exact fresh
  | hit looking found recent => exact fresh
  | @store thread call requested metadata storing =>
    intro key entry found
    rcases eq_or_ne key call.key with rfl | different
    · simp only [State.store, State.handOut, State.enter, Function.update_self,
        Option.some.injEq] at found
      rw [StoresFresh, storing] at storesFresh
      subst found
      exact storesFresh
    · simp only [State.store, State.handOut, State.enter, Function.update_of_ne different] at found
      exact fresh key entry found
  | clear clearing => exact nofun
  | returnClear cleared => exact fresh
  | other ttl clock => exact fresh

theorem Effective.handOut {thread : ℕ} {answer : Return μ} (effective : Effective s)
    (last : ∀ clear ∈ s.clears, clear.returned < answer.started → clear.begun ≤ answer.requested) :
    Effective (s.handOut thread answer) := by
  intro other member
  rcases List.mem_cons.mp member with rfl | earlier
  · exact last
  · exact effective other earlier

theorem Step.effective (stepped : Step s a t) (known : Known s) (fresh : CacheFresh s)
    (effective : Effective s) : Effective t := by
  -- a request of one's own is sent behind every `clearCache` that has returned
  have own {call : FetchCall} {requested : ℕ} (after : call.started ≤ requested) :
      ∀ clear ∈ s.clears, clear.returned < call.started → clear.begun ≤ requested := by
    intro clear member before
    have order := (known.clears clear member).2.1
    omega
  cases stepped with
  | move advance => exact effective
  | answer phase => exact effective.handOut (own (known.started_lt (phase.imp_right .inl)).1)
  | hit looking found recent =>
    refine effective.handOut fun clear member _ => ?_
    exact fresh _ _ found clear.begun (known.clears clear member).1
  | @store thread call requested metadata storing =>
    have last := own (known.started_lt (.inr (.inr storing))).1
    exact @Effective.handOut _ { s with cache := _ } thread _ effective last
  | clear clearing => exact effective
  | returnClear cleared =>
    intro answer member clear returned before
    rcases List.mem_cons.mp returned with rfl | earlier
    · exact absurd before (known.returns answer member).le.not_gt
    · exact effective answer member clear earlier before
  | other ttl clock => exact effective

/-- In a run in which nothing is stored that was requested in front of a `clearCache` which has
emptied the cache, every `clearCache` is effective. -/
theorem effective_of_storesFresh
    (reachable : ((machine parse noMetadata).restrict StoresFresh).Reachable s) : Effective s := by
  have initial : CacheFresh ((machine parse noMetadata).restrict StoresFresh).initial ∧
      Effective ((machine parse noMetadata).restrict StoresFresh).initial := by
    refine ⟨?_, nofun⟩
    intro key entry found
    cases found
  have both : CacheFresh s ∧ Effective s := by
    refine Machine.Reachable.invariant (P := fun s => CacheFresh s ∧ Effective s) initial
      (fun s a before enabled holds => ?_) reachable
    have stepped := step_of_enabled enabled.1
    exact ⟨stepped.cacheFresh enabled.2 holds.1,
      stepped.effective (known_of_reachable before.of_restrict) holds.1 holds.2⟩
  exact both.2

theorem run_cons_of_step {u : State μ} {as : List Action}
    (stepped : step parse noMetadata s a = some t) (run : (machine parse noMetadata).Run t as u) :
    (machine parse noMetadata).Run s (a :: as) u := by
  have next : (machine parse noMetadata).next s a = t := by
    change (step parse noMetadata s a).getD s = t
    rw [stepped, Option.getD_some]
  exact .cons (by simp [machine, stepped]) (by rwa [next])

/-- A thread that is idle asks for a package whose metadata have just been stored, and gets them. -/
theorem not_effective_of_stored {thread : ℕ} {call : FetchCall} {entry : Entry μ} {clear : Clear}
    (idle : s.phase thread = .idle) (found : s.cache call.key = some entry)
    (current : entry.stored = s.clock) (cleared : clear ∈ s.clears)
    (before : clear.returned < s.now) (stale : entry.requested < clear.begun) :
    ∃ as t, (machine parse noMetadata).Run s as t ∧ ¬Effective t := by
  let asked : FetchCall := ⟨call.packageName, call.registry, s.now + 1⟩
  let on : State μ := { s with cacheTTL := 300, now := s.now + 1 }
  let testing := on.enter thread (.testing asked)
  let looking := testing.enter thread (.looking asked)
  have first : step parse noMetadata s (.setCacheTTL 300) = some on := rfl
  have second : step parse noMetadata on (.fetchPackage thread call.packageName call.registry) =
      some testing := by
    simp [step, on, idle, testing, asked]
  have third : step parse noMetadata testing (.testTTL thread) = some looking := by
    simp [step, testing, looking, State.enter, on]
  have fresh : looking.Fresh entry := by
    simp [State.Fresh, looking, testing, on, State.enter, current]
  have fourth : step parse noMetadata looking (.find thread) =
      some (looking.handOut thread ⟨asked.started, entry.requested, entry.metadata⟩) := by
    have phase : looking.phase thread = .looking asked := Function.update_self ..
    have hit : looking.cache asked.key = some entry := found
    simp only [step, phase, hit, if_pos fresh]
  refine ⟨_, _, run_cons_of_step first (run_cons_of_step second (run_cons_of_step third
    (run_cons_of_step fourth (.nil _)))), fun effective => ?_⟩
  have order := effective _ List.mem_cons_self clear cleared (Nat.lt_succ_of_lt before)
  exact order.not_gt stale

/-- Storing what was requested in front of such a call lets it be handed out behind the call. -/
theorem exists_not_effective (reachable : (machine parse noMetadata).Reachable s)
    (enabled : (machine parse noMetadata).Enabled s a) (stale : ¬StoresFresh s a) :
    ∃ as t, (machine parse noMetadata).Run ((machine parse noMetadata).next s a) as t ∧
      ¬Effective t := by
  have after := known_of_reachable (reachable.next enabled)
  cases a with
  | store thread =>
    cases storing : s.phase thread with
    | storing call requested metadata =>
      rw [StoresFresh, storing, Phase.Timely] at stale
      push Not at stale
      obtain ⟨begun, member, older⟩ := stale
      have stepped : step parse noMetadata s (.store thread) =
          some (s.store thread call requested metadata) := by
        simp only [step, storing]
      have next : (machine parse noMetadata).next s (.store thread) =
          s.store thread call requested metadata := by
        simp only [machine, stepped, Option.getD_some]
      rw [next] at after ⊢
      rcases after.emptied begun member with ⟨clear, returned, rfl⟩ | ⟨holder, cleared⟩
      · exact not_effective_of_stored (Function.update_self ..) (Function.update_self ..) rfl
          returned (after.clears clear returned).2.2 older
      · -- the `clearCache` returns first
        have different : thread ≠ holder := by
          rintro rfl
          simp [State.store, State.handOut, State.enter] at cleared
        have returns : step parse noMetadata (s.store thread call requested metadata)
            (.returnClear holder) =
              some ((s.store thread call requested metadata).returnClear holder begun) := by
          simp only [step, cleared]
        have idle : ((s.store thread call requested metadata).returnClear holder begun).phase
            thread = .idle :=
          (Function.update_of_ne different _ _).trans (Function.update_self ..)
        obtain ⟨as, t, run, violated⟩ := @not_effective_of_stored _ parse noMetadata _ thread call
          ⟨metadata, s.clock, requested⟩ ⟨begun, _⟩ idle (Function.update_self ..) rfl
          List.mem_cons_self (Nat.lt_succ_self _) older
        exact ⟨_, t, run_cons_of_step returns run, violated⟩
    | _ => simp [StoresFresh, storing, Phase.Timely] at stale
  | _ => exact absurd trivial stale

/-- Without such a step every `clearCache` is effective; with one, there is a way to go on to an
answer that shows the opposite. -/
theorem clearCache_effective (parse : Text → μ) (noMetadata : μ) :
    (∀ s, ((machine parse noMetadata).restrict StoresFresh).Reachable s → Effective s) ∧
      ∀ s a, (machine parse noMetadata).Reachable s → (machine parse noMetadata).Enabled s a →
        ¬StoresFresh s a → ∃ as t,
          (machine parse noMetadata).Run ((machine parse noMetadata).next s a) as t ∧
            ¬Effective t :=
  ⟨fun _ => effective_of_storesFresh, fun _ _ => exists_not_effective⟩

/-- A package is fetched, the cache is cleared, and the package is fetched again. -/
def fetchClearFetch : List Action :=
  [.fetchPackage 0 ['p'] [], .testTTL 0, .find 0, .request 0, .respond 0 ['1'], .testTTL 0,
    .store 0, .clearCache 1, .clear 1, .returnClear 1, .fetchPackage 0 ['p'] [], .testTTL 0,
    .find 0, .request 0, .respond 0 ['2'], .testTTL 0, .store 0]

theorem clearCache_effective_fetchClearFetch :
    ∃ s, Effective s ∧ s.returns.map Return.metadata = [['2'], ['1']] ∧ s.clears.length = 1 := by
  obtain ⟨s, run, shown⟩ := ((machine id ([] : Text)).restrict StoresFresh).exists_run_of_replay
    ((machine id []).restrict StoresFresh).initial fetchClearFetch
    (fun s => s.returns.map Return.metadata = [['2'], ['1']] ∧ s.clears.length = 1) (by decide)
  exact ⟨s, (clearCache_effective id []).1 s ⟨fetchClearFetch, run⟩, shown⟩

/-- The answer arrives behind the `clearCache` and is handed out to the next call. -/
def clearWhileFetching : List Action :=
  [.fetchPackage 0 ['p'] [], .testTTL 0, .find 0, .request 0, .clearCache 1, .clear 1,
    .returnClear 1, .respond 0 ['1'], .testTTL 0, .store 0, .fetchPackage 1 ['p'] [], .testTTL 1,
    .find 1]

theorem not_effective_clearWhileFetching :
    ∃ s, (machine id ([] : Text)).Reachable s ∧ ¬Effective s := by
  obtain ⟨s, run, stale⟩ := (machine id ([] : Text)).exists_run_of_replay
    (machine id []).initial clearWhileFetching (fun s => ¬Effective s) (by decide)
  exact ⟨s, ⟨clearWhileFetching, run⟩, stale⟩

end Clearing

end ProtoJS.Npm.NPMRegistry.Cache
