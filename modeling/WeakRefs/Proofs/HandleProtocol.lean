import Mathlib.Computability.RegularExpressions
import Mathlib.Data.List.Induction
import WeakRefs.Proofs.Stride

/-!
# The protocol of a handle

What is reported of the bindings of one handle is a word of four letters. `Letter.protocol` is the
expression for the words that may be reported, and `Stage` the automaton that reads them.
-/

namespace WeakRefs

/-- What may be reported of a binding. -/
inductive Letter where
  /-- A weak reference was bound. -/
  | bound
  /-- The slot was cleared by its finalizer. -/
  | finalized
  /-- The slot was cleared on a read. -/
  | stale
  /-- The previous binding was disarmed. -/
  | disarmed
  deriving DecidableEq

namespace Letter
open RegularExpression

/-- A binding, which is cleared once at most, by its finalizer or by a read. -/
def round : RegularExpression Letter := char bound * (1 + (char finalized + char stale))

/-- Bindings that are disarmed one after the other. -/
def rounds : RegularExpression Letter := star (round * char disarmed)

/-- Bindings that are disarmed one after the other, and one that may still be in force. -/
def protocol : RegularExpression Letter := rounds * (1 + round)

theorem singleton_mem_round : [bound] ∈ round.matches' := by
  simp only [round, matches'_mul, matches'_add, matches'_char, matches'_epsilon]
  exact Language.append_mem_mul (a := [bound]) (b := []) rfl (Or.inl rfl)

theorem pair_mem_round {l : Letter} (clears : l = finalized ∨ l = stale) :
    [bound, l] ∈ round.matches' := by
  simp only [round, matches'_mul, matches'_add, matches'_char, matches'_epsilon]
  refine Language.append_mem_mul (a := [bound]) (b := [l]) rfl (Or.inr ?_)
  rcases clears with rfl | rfl
  · exact Or.inl rfl
  · exact Or.inr rfl

theorem nil_mem_rounds : [] ∈ rounds.matches' := by
  rw [rounds, matches'_star]
  exact Language.nil_mem_kstar _

theorem mem_rounds_append {past last : List Letter} (before : past ∈ rounds.matches')
    (now : last ∈ round.matches') : past ++ (last ++ [disarmed]) ∈ rounds.matches' := by
  have whole : last ++ [disarmed] ∈ (round * char disarmed).matches' :=
    Language.append_mem_mul now rfl
  rw [rounds, matches'_star, Language.mem_kstar] at before ⊢
  obtain ⟨parts, rfl, each⟩ := before
  refine ⟨parts ++ [last ++ [disarmed]], by simp, ?_⟩
  intro part listed
  rcases List.mem_append.mp listed with earlier | new
  · exact each part earlier
  · exact List.mem_singleton.mp new ▸ whole

theorem mem_protocol_append {past last : List Letter} (before : past ∈ rounds.matches')
    (now : last = [] ∨ last ∈ round.matches') : past ++ last ∈ protocol.matches' := by
  rw [protocol, matches'_mul]
  exact Language.append_mem_mul before now

end Letter

/-- How far the word of a handle has come. -/
inductive Stage where
  | idle
  | bound
  | cleared
  deriving DecidableEq

namespace Stage
open Letter

def follow : Stage → Letter → Option Stage
  | idle, .bound => some bound
  | bound, .finalized | bound, .stale => some cleared
  | bound, .disarmed | cleared, .disarmed => some idle
  | _, _ => none

def after? (g : Stage) (word : List Letter) : Option Stage := word.foldlM follow g

theorem after?_append (g : Stage) (word more : List Letter) :
    g.after? (word ++ more) = (g.after? word).bind (·.after? more) := List.foldlM_append

theorem after?_singleton (g : Stage) (l : Letter) : g.after? [l] = g.follow l := by
  unfold after?
  rw [List.foldlM_cons]
  cases g.follow l <;> rfl

def Reads (word : List Letter) : Stage → Prop
  | idle => word ∈ rounds.matches'
  | bound => ∃ past ∈ rounds.matches', word = past ++ [.bound]
  | cleared => ∃ past ∈ rounds.matches', ∃ l, (l = .finalized ∨ l = .stale) ∧
      word = past ++ [.bound, l]

theorem reads_follow {word : List Letter} {g g' : Stage} {l : Letter} (reads : Reads word g)
    (follows : g.follow l = some g') : Reads (word ++ [l]) g' := by
  cases g with
  | idle =>
    cases l with
    | bound =>
      cases follows
      exact ⟨word, reads, rfl⟩
    | _ => cases follows
  | bound =>
    obtain ⟨past, before, same⟩ := reads
    cases l with
    | bound => cases follows
    | disarmed =>
      cases follows
      rw [same, List.append_assoc]
      exact mem_rounds_append before singleton_mem_round
    | finalized =>
      cases follows
      exact ⟨past, before, .finalized, Or.inl rfl, by rw [same, List.append_assoc]; rfl⟩
    | stale =>
      cases follows
      exact ⟨past, before, .stale, Or.inr rfl, by rw [same, List.append_assoc]; rfl⟩
  | cleared =>
    obtain ⟨past, before, c, clears, same⟩ := reads
    cases l with
    | disarmed =>
      cases follows
      rw [same, List.append_assoc]
      exact mem_rounds_append before (pair_mem_round clears)
    | _ => cases follows

theorem reads_after? {word : List Letter} {g : Stage} (ends : idle.after? word = some g) :
    Reads word g := by
  induction word using List.reverseRecOn generalizing g with
  | nil =>
    cases ends
    exact nil_mem_rounds
  | append_singleton word l ih =>
    rw [after?_append] at ends
    obtain ⟨g', before, last⟩ := Option.bind_eq_some_iff.mp ends
    rw [after?_singleton] at last
    exact reads_follow (ih before) last

theorem mem_protocol {word : List Letter} {g : Stage} (ends : idle.after? word = some g) :
    word ∈ protocol.matches' := by
  have reads := reads_after? ends
  cases g with
  | idle =>
    rw [← List.append_nil word]
    exact mem_protocol_append reads (Or.inl rfl)
  | bound =>
    obtain ⟨past, before, rfl⟩ := reads
    exact mem_protocol_append before (Or.inr singleton_mem_round)
  | cleared =>
    obtain ⟨past, before, l, clears, rfl⟩ := reads
    exact mem_protocol_append before (Or.inr (pair_mem_round clears))

end Stage

namespace Event

/-- The handle that an event is about, and the letter that it adds to its word. A bind that was
rejected adds none. -/
def letter? : Event → Option (HandleId × Letter)
  | bound handle _ => some (handle, .bound)
  | clearedByFinalizer handle => some (handle, .finalized)
  | clearedOnRead handle => some (handle, .stale)
  | disarmed handle => some (handle, .disarmed)
  | _ => none

/-- The letter that an event adds to the word of a handle. -/
def letterOf? (h : HandleId) (e : Event) : Option Letter :=
  e.letter?.bind fun told => if told.1 = h then some told.2 else none

end Event

namespace Session
variable {s s' : Session} (h : HandleId)

/-- What was reported of the bindings of a handle, oldest first. -/
def word (s : Session) (h : HandleId) : List Letter := s.journal.toList.filterMap (·.letterOf? h)

theorem word_eq_news (s : Session) : s.word h = s.news.filterMap (·.letterOf? h) := by
  unfold word news
  rw [List.filterMap_filter]
  apply List.filterMap_congr
  intro e _
  cases e <;> rfl

theorem word_of_news {told : List Event} (news : s'.news = s.news ++ told) :
    s'.word h = s.word h ++ told.filterMap (·.letterOf? h) := by
  rw [word_eq_news, word_eq_news, news, List.filterMap_append]

theorem word_of_same (news : s'.news = s.news) : s'.word h = s.word h := by
  rw [word_eq_news, word_eq_news, news]

end Session

end WeakRefs
