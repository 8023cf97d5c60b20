import ConstFold.Proofs.Reporting
import ConstFold.Proofs.Runs

/-!
# Runs of a diagnostic queue

A queue keeps what it has seen apart from what it holds. Whatever is added and however often it is
flushed, the two stay in step: what is seen are the codes and locations of what is held
(`Queue.Sound`). So adding refuses exactly what does not fit and what repeats a held diagnostic.

The main statement, `Queue.lawful_after_operations`, says what a queue is after any run of additions
and flushes, in terms of the history of the run alone (`Queue.kept`), and what it does next.
-/

set_option autoImplicit false

namespace ConstFold

namespace Queue

/-- An operation on a queue. -/
inductive Step where
  | add (diagnostic : Diagnostic)
  | flush
  deriving DecidableEq, Repr

/-- What an operation gives back. -/
inductive Answer where
  | added (accepted : Bool)
  | flushed (diagnostics : List Diagnostic)
  deriving DecidableEq, Repr

/-- Carry out one operation. -/
def step (queue : Queue) : Step → Answer × Queue
  | .add diagnostic =>
    let (accepted, queue) := queue.add diagnostic
    (.added accepted, queue)
  | .flush =>
    let (diagnostics, queue) := queue.flush
    (.flushed diagnostics, queue)

/-- What was held, after one more operation and its answer. -/
def keep (held : List Diagnostic) : Step × Answer → List Diagnostic
  | (.add diagnostic, .added true) => held ++ [diagnostic]
  | (.flush, _) => []
  | _ => held

/-- The diagnostics that were accepted since the last flush, oldest first. -/
def kept (history : List (Step × Answer)) : List Diagnostic :=
  history.foldl keep []

/-- A diagnostic of the same code at the same location is held. -/
def HoldsLike (queue : Queue) (diagnostic : Diagnostic) : Prop :=
  diagnostic.span ≠ Span.nowhere ∧
    ∃ held ∈ queue.toList, held.code = diagnostic.code ∧ held.span = diagnostic.span

/-- A queue of a limit that does not exceed it, holds nothing twice and has seen what it holds. -/
structure Sound (limit : Nat) (queue : Queue) : Prop where
  limit_eq : queue.limit = limit
  /-- A positive limit is never exceeded. -/
  bounded : 0 < limit → queue.size ≤ limit
  /-- Held diagnostics differ in code or location, unless they have no location. -/
  distinct : queue.toList.Pairwise fun first second =>
    first.code = second.code → first.span = second.span → first.span = Span.nowhere
  /-- What is seen are the codes and locations of what is held. -/
  seen : ∀ code span, (code, span) ∈ queue.seen ↔
    span ≠ Span.nowhere ∧ ∃ held ∈ queue.toList, held.code = code ∧ held.span = span

/-- What a queue of a limit is after a history of operations, and what it does next. -/
structure Lawful (limit : Nat) (history : List (Step × Answer)) (queue : Queue) : Prop
    extends Sound limit queue where
  /-- What is held was accepted since the last flush, in order. -/
  held : queue.toList = kept history
  /-- A diagnostic is refused if the queue is full or holds one like it, and in no other case. -/
  refuses : ∀ diagnostic, (queue.add diagnostic).1 = false ↔
    (0 < limit ∧ limit ≤ queue.size) ∨ queue.HoldsLike diagnostic
  /-- Refusing a diagnostic changes nothing. -/
  unchanged : ∀ diagnostic, (queue.add diagnostic).1 = false → (queue.add diagnostic).2 = queue
  /-- Flushing hands over what is held, stably sorted by location and code. -/
  sorts : StablySorted Diagnostic.place queue.toList queue.flush.1
  /-- Flushing leaves a new queue. -/
  restarts : queue.flush.2 = withLimit limit

/-! ## What a queue has seen -/

/-- A queue is full if it has a limit and holds that many diagnostics. -/
theorem isFull_iff {queue : Queue} :
    queue.isFull = true ↔ 0 < queue.limit ∧ queue.limit ≤ queue.size := by
  simp [isFull, size]

/-- A diagnostic at a location has its code and the location as key, and one without has none. -/
theorem key?_eq_some_iff {diagnostic : Diagnostic} {key : Code × Span} :
    key? diagnostic = some key ↔
      diagnostic.span ≠ Span.nowhere ∧ key = (diagnostic.code, diagnostic.span) := by
  unfold key?
  split
  · next hnowhere => simp [Span.isNowhere_iff.1 hnowhere]
  · next hplaced =>
    rw [Span.isNowhere_iff] at hplaced
    simp [hplaced, eq_comm]

/-- A diagnostic has been seen if its key has been. -/
theorem hasSeen_iff {queue : Queue} {diagnostic : Diagnostic} :
    queue.hasSeen diagnostic = true ↔
      ∃ key, key? diagnostic = some key ∧ key ∈ queue.seen := by
  unfold hasSeen
  cases key? diagnostic <;> simp

variable {limit : Nat} {queue : Queue}

/-- A sound queue has seen what is like a diagnostic it holds. -/
theorem Sound.hasSeen_iff_holdsLike (h : Sound limit queue) {diagnostic : Diagnostic} :
    queue.hasSeen diagnostic = true ↔ queue.HoldsLike diagnostic := by
  rw [hasSeen_iff]
  constructor
  · rintro ⟨key, hkey, hmem⟩
    obtain ⟨hplaced, rfl⟩ := key?_eq_some_iff.1 hkey
    exact ⟨hplaced, ((h.seen _ _).1 hmem).2⟩
  · rintro ⟨hplaced, hheld⟩
    exact ⟨_, key?_eq_some_iff.2 ⟨hplaced, rfl⟩, (h.seen _ _).2 ⟨hplaced, hheld⟩⟩

/-! ## What one operation does -/

/-- Adding a diagnostic refuses it and changes nothing, or accepts it. -/
theorem add_cases (queue : Queue) (diagnostic : Diagnostic) :
    ((queue.isFull = true ∨ queue.hasSeen diagnostic = true) ∧
      queue.add diagnostic = (false, queue)) ∨
    (¬ (queue.isFull = true ∨ queue.hasSeen diagnostic = true) ∧
      queue.add diagnostic = (true, queue.accept diagnostic)) := by
  unfold add
  split
  · next hrefused => exact .inl ⟨Bool.or_eq_true_iff.1 hrefused, rfl⟩
  · next haccepted => exact .inr ⟨fun h => haccepted (Bool.or_eq_true_iff.2 h), rfl⟩

/-- An empty queue is sound. -/
theorem sound_withLimit (limit : Nat) : Sound limit (withLimit limit) where
  limit_eq := rfl
  bounded _ := Nat.zero_le _
  distinct := .nil
  seen code span := by simp [withLimit, toList]

/-- Accepting a diagnostic that fits and is unlike those held keeps a queue sound. -/
theorem Sound.accept (h : Sound limit queue) {diagnostic : Diagnostic}
    (hroom : ¬ queue.isFull = true) (hnew : ¬ queue.HoldsLike diagnostic) :
    Sound limit (queue.accept diagnostic) where
  limit_eq := h.limit_eq
  bounded hlimit := by
    rw [isFull_iff, h.limit_eq] at hroom
    rw [size_accept]
    omega
  distinct := by
    rw [toList_accept, List.pairwise_append]
    refine ⟨h.distinct, List.pairwise_singleton _ _, fun held hheld last hlast hcode hspan => ?_⟩
    rw [List.mem_singleton] at hlast
    subst hlast
    by_contra hplaced
    exact hnew ⟨fun hnowhere => hplaced (hspan.trans hnowhere), held, hheld, hcode, hspan⟩
  seen code span := by
    have hseen : (code, span) ∈ (queue.accept diagnostic).seen ↔
        key? diagnostic = some (code, span) ∨ (code, span) ∈ queue.seen := by
      simp [Queue.accept]
    rw [hseen, key?_eq_some_iff, h.seen, toList_accept]
    simp only [Prod.mk.injEq, List.mem_append, List.mem_singleton]
    constructor
    · rintro (⟨hplaced, rfl, rfl⟩ | ⟨hplaced, held, hheld, hlike⟩)
      · exact ⟨hplaced, diagnostic, .inr rfl, rfl, rfl⟩
      · exact ⟨hplaced, held, .inl hheld, hlike⟩
    · rintro ⟨hplaced, held, hheld | rfl, rfl, rfl⟩
      · exact .inr ⟨hplaced, held, hheld, rfl, rfl⟩
      · exact .inl ⟨hplaced, rfl, rfl⟩

/-- A flushed queue is empty again, with the limit it had. -/
theorem Sound.flush (h : Sound limit queue) : queue.flush.2 = withLimit limit := by
  rw [← h.limit_eq]
  rfl

/-- Every operation keeps a queue sound, and what it holds is what its history says. -/
theorem Sound.step (h : Sound limit queue) (step : Step) :
    Sound limit (queue.step step).2 ∧
      (queue.step step).2.toList = keep queue.toList (step, (queue.step step).1) := by
  cases step with
  | add diagnostic =>
    simp only [Queue.step]
    rcases queue.add_cases diagnostic with ⟨-, hadd⟩ | ⟨haccepted, hadd⟩
    · rw [hadd]
      exact ⟨h, rfl⟩
    · rw [hadd]
      rw [h.hasSeen_iff_holdsLike, not_or] at haccepted
      exact ⟨h.accept haccepted.1 haccepted.2, toList_accept queue diagnostic⟩
  | flush =>
    simp only [Queue.step]
    rw [h.flush]
    exact ⟨sound_withLimit limit, rfl⟩

/-! ## Runs -/

/-- A sound queue that holds what its history says is lawful. -/
theorem Sound.lawful (h : Sound limit queue) {history : List (Step × Answer)}
    (hheld : queue.toList = kept history) : Lawful limit history queue where
  toSound := h
  held := hheld
  refuses diagnostic := by
    rw [← h.hasSeen_iff_holdsLike, ← h.limit_eq, ← isFull_iff]
    rcases queue.add_cases diagnostic with ⟨hrefused, hadd⟩ | ⟨haccepted, hadd⟩
    · rw [hadd]
      exact iff_of_true rfl hrefused
    · rw [hadd]
      exact iff_of_false nofun haccepted
  unchanged diagnostic hrefused := by
    rcases queue.add_cases diagnostic with ⟨-, hadd⟩ | ⟨-, hadd⟩
    · rw [hadd]
    · rw [hadd] at hrefused
      cases hrefused
  sorts := stablySorted_mergeSort comesBefore_iff queue.toList
  restarts := h.flush

/-- After any run of additions and flushes, a queue is within its limit, holds nothing twice and has
seen what it holds. It holds what was accepted since the last flush, in order. It refuses a
diagnostic exactly if it is full or holds one of the same code and location, and is not changed by
that. It hands over what it holds stably sorted by start, end and code, and starts afresh. -/
theorem lawful_after_operations (limit : Nat) (steps : List Step) :
    Lawful limit (Run.ofInputs step (withLimit limit) steps).history
      (Run.ofInputs step (withLimit limit) steps).state := by
  have hrun : Sound limit (Run.ofInputs step (withLimit limit) steps).state ∧
      (Run.ofInputs step (withLimit limit) steps).state.toList =
        kept (Run.ofInputs step (withLimit limit) steps).history := by
    refine Run.ofInputs_induction (motive := fun history queue =>
      Sound limit queue ∧ queue.toList = kept history) ⟨sound_withLimit limit, rfl⟩ ?_ steps
    rintro history queue step ⟨hsound, hheld⟩
    obtain ⟨hnext, hkept⟩ := hsound.step step
    refine ⟨hnext, ?_⟩
    rw [hkept, hheld, kept, kept, List.foldl_concat]
  exact hrun.1.lawful hrun.2

end Queue

end ConstFold
