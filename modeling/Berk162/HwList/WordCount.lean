import Berk162.Lib.Transition
import Berk162.LibKernel.ListSort
import Mathlib.Logic.Function.Basic

/-!
# WordCount — `word_count_l.c` and `word_count_p.c` of `hw-list`

Both count words in a list of `word_count_t`.  `word_count_l.c` serves one thread and
`word_count_p.c` the threads of `pwords.c`, with a mutex around every access.  A list is the
sequence of its elements, a pointer into it a position.  Words are compared by `strcmp`; `W` is the
type of their contents.  `malloc` succeeds.
-/

namespace Berk162

/-- `word_count_t`, less its list element. -/
structure WordCount (W : Type) where
  word : W
  /-- An `int`. -/
  count : Int
  deriving DecidableEq, Repr

variable {T W : Type} [DecidableEq T] [DecidableEq W]

/-- `wc->count++`. -/
def WordCount.incr (wc : WordCount W) : WordCount W := { wc with count := int32 (wc.count + 1) }

/-! ## One thread -/

namespace WordCountL

/-- `find_word`: the position of the first element with the word. -/
def find_word (wclist : List (WordCount W)) (word : W) : Option Nat :=
  wclist.findIdx? fun wc => wc.word = word

def add_word (wclist : List (WordCount W)) (word : W) : List (WordCount W) :=
  match find_word wclist word with
  | some elem => wclist.modify elem WordCount.incr
  | none => ⟨word, 1⟩ :: wclist

/-- `count_words` on the words of an input, from `init_words` on. -/
def count_words (words : List W) : List (WordCount W) := words.foldl add_word []

/-- `wordcount_sort`. -/
def wordcount_sort (less : WordCount W → WordCount W → Bool) (wclist : List (WordCount W)) :
    Option (List (WordCount W)) := list_sort less (wclist.length + 1) wclist

end WordCountL

/-! ## The threads of `pwords` -/

namespace WordCountP

/-- Where a thread is in `add_word`. -/
inductive Place (W : Type)
  /-- Not in it. -/
  | out
  /-- In `pthread_mutex_lock`. -/
  | locking (word : W)
  /-- In the loop, at the position `e` of the list. -/
  | searching (word : W) (e : Nat)
  /-- Before `pthread_mutex_unlock`. -/
  | unlocking
  deriving DecidableEq, Repr

/-- `word_count_list_t`, and for each thread the words that it has still to add and where it is. -/
structure State (T W : Type) where
  lst : List (WordCount W)
  lock : Option T
  todo : T → List W
  place : T → Place W

/-- What a step did. -/
inductive Label (T W : Type)
  /-- A thread calls `add_word`. -/
  | call (t : T)
  | lock (t : T)
  /-- It goes on to the next element. -/
  | next (t : T)
  /-- It has added a word to the list. -/
  | add (t : T) (word : W)
  | unlock (t : T)

namespace State

def setList (s : State T W) (lst : List (WordCount W)) : State T W := { s with lst := lst }

def setLock (s : State T W) (lock : Option T) : State T W := { s with lock := lock }

def setTodo (s : State T W) (t : T) (words : List W) : State T W :=
  { s with todo := Function.update s.todo t words }

def setPlace (s : State T W) (t : T) (place : Place W) : State T W :=
  { s with place := Function.update s.place t place }

omit [DecidableEq W] in
@[simp] theorem setPlace_self (s : State T W) (t : T) (place : Place W) :
    (s.setPlace t place).place t = place := by
  simp [setPlace]

omit [DecidableEq W] in
theorem setPlace_of_ne (s : State T W) {t t' : T} (place : Place W) (h : t' ≠ t) :
    (s.setPlace t place).place t' = s.place t' := by
  simp [setPlace, h]

/-- The threads have returned from their last calls, and `main` has joined them. -/
def Joined (s : State T W) : Prop := ∀ t, s.place t = .out ∧ s.todo t = []

/-- `wordcount_sort`, called by `main`; with the mutex taken it would not return. -/
def wordcount_sort (less : WordCount W → WordCount W → Bool) (s : State T W) :
    Option (List (WordCount W)) :=
  if s.lock.isSome then none else list_sort less (s.lst.length + 1) s.lst

end State

/-- One step of a thread. -/
inductive Step : State T W → Label T W → State T W → Prop
  | call {s : State T W} {t : T} {word : W} {words : List W} :
      s.place t = .out → s.todo t = word :: words →
      Step s (.call t) ((s.setTodo t words).setPlace t (.locking word))
  | lock {s : State T W} {t : T} {word : W} :
      s.place t = .locking word → s.lock = none →
      Step s (.lock t) ((s.setLock (some t)).setPlace t (.searching word 0))
  | next {s : State T W} {t : T} {word : W} {e : Nat} {wc : WordCount W} :
      s.place t = .searching word e → s.lst[e]? = some wc → wc.word ≠ word →
      Step s (.next t) (s.setPlace t (.searching word (e + 1)))
  | found {s : State T W} {t : T} {word : W} {e : Nat} {wc : WordCount W} :
      s.place t = .searching word e → s.lst[e]? = some wc → wc.word = word →
      Step s (.add t word) ((s.setList (s.lst.set e wc.incr)).setPlace t .unlocking)
  | insert {s : State T W} {t : T} {word : W} {e : Nat} :
      s.place t = .searching word e → s.lst[e]? = none →
      Step s (.add t word) ((s.setList (s.lst ++ [⟨word, 1⟩])).setPlace t .unlocking)
  | unlock {s : State T W} {t : T} :
      s.place t = .unlocking → Step s (.unlock t) ((s.setLock none).setPlace t .out)

/-- The words that the thread `t` adds, `tasks` being the inputs with the threads that count them. -/
def assigned (tasks : List (T × List W)) (t : T) : List W :=
  (tasks.filter fun task => task.1 = t).flatMap Prod.snd

/-- The threads have been created, and none has run yet. -/
def initial (tasks : List (T × List W)) : State T W where
  lst := []
  lock := none
  todo := assigned tasks
  place := fun _ => .out

/-- The runs of the threads that count the inputs `tasks`. -/
def pwords (tasks : List (T × List W)) : System (State T W) (Label T W) where
  init s := s = initial tasks
  step := Step

end WordCountP

/-! ## Lists that count -/

/-- The list holds each of the words once, with the number of its occurrences as an `int`. -/
structure Counts (lst : List (WordCount W)) (words : List W) : Prop where
  nodup : (lst.map WordCount.word).Nodup
  mem_iff : ∀ wc, wc ∈ lst ↔ wc.word ∈ words ∧ wc.count = int32 (words.count wc.word)

variable {lst : List (WordCount W)} {words : List W} {word : W} {wc : WordCount W} {e : Nat}

theorem int32_incr (x : Int) : int32 (int32 x + 1) = int32 (x + 1) := by
  unfold int32
  omega

namespace Counts

theorem nil : Counts ([] : List (WordCount W)) [] := ⟨List.nodup_nil, by simp⟩

theorem word_mem_iff (h : Counts lst words) : (∃ wc ∈ lst, wc.word = word) ↔ word ∈ words := by
  constructor
  · rintro ⟨wc, hwc, rfl⟩
    exact ((h.mem_iff wc).1 hwc).1
  · intro hword
    exact ⟨⟨word, int32 (words.count word)⟩, (h.mem_iff _).2 ⟨hword, rfl⟩, rfl⟩

/-- The order of the words makes no difference. -/
theorem perm (h : Counts lst words) {words' : List W} (hperm : words'.Perm words) :
    Counts lst words' where
  nodup := h.nodup
  mem_iff wc := by rw [h.mem_iff, hperm.mem_iff, hperm.count_eq]

/-- Two lists that count the same words have the same elements. -/
theorem perm_lists (h : Counts lst words) {lst' : List (WordCount W)} (h' : Counts lst' words) :
    lst.Perm lst' := by
  rw [List.perm_ext_iff_of_nodup h.nodup.of_map h'.nodup.of_map]
  intro wc
  rw [h.mem_iff, h'.mem_iff]

theorem congr (h : Counts lst words) {lst' : List (WordCount W)} (hperm : lst'.Perm lst) :
    Counts lst' words where
  nodup := (hperm.map _).nodup_iff.2 h.nodup
  mem_iff wc := by rw [hperm.mem_iff, h.mem_iff]

/-- A new word, wherever it is put. -/
theorem insert (h : Counts lst words) (hnew : ∀ wc ∈ lst, wc.word ≠ word) :
    Counts (⟨word, 1⟩ :: lst) (words ++ [word]) where
  nodup := by
    rw [List.map_cons, List.nodup_cons, List.mem_map]
    refine ⟨?_, h.nodup⟩
    rintro ⟨wc, hwc, hword⟩
    exact hnew wc hwc hword
  mem_iff wc := by
    have hnot : word ∉ words := fun hmem => by
      obtain ⟨wc', hwc', hword'⟩ := h.word_mem_iff.2 hmem
      exact hnew wc' hwc' hword'
    rw [List.mem_cons, h.mem_iff, List.mem_append, List.mem_singleton, List.count_append]
    by_cases hword : wc.word = word
    · have hzero : words.count word = 0 := List.count_eq_zero.2 hnot
      have hone : int32 ((0 + 1 : Nat) : Int) = 1 := by decide
      rw [hword, hzero, List.count_singleton_self, hone]
      cases wc with
      | mk w n =>
          obtain rfl : w = word := hword
          simp [hnot]
    · have hne : ¬ wc = ⟨word, 1⟩ := fun heq => hword (by rw [heq])
      have hcount : [word].count wc.word = 0 := List.count_eq_zero.2 (by simpa using hword)
      rw [hcount, Nat.add_zero]
      simp [hword, hne]

end Counts

omit [DecidableEq W] in
/-- A list around the position `e`. -/
theorem set_split (he : lst[e]? = some wc) :
    ∃ pre post, lst = pre ++ wc :: post ∧ ∀ wc', lst.set e wc' = pre ++ wc' :: post := by
  obtain ⟨hlt, hget⟩ := List.getElem?_eq_some_iff.1 he
  refine ⟨lst.take e, lst.drop (e + 1), ?_, fun wc' => ?_⟩
  · rw [← hget, List.cons_getElem_drop_succ, List.take_append_drop]
  · exact List.set_eq_take_append_cons_drop.trans (if_pos hlt)

namespace Counts

/-- Another occurrence of a word that the list has at position `e`. -/
theorem incr (h : Counts lst words) (he : lst[e]? = some wc) :
    Counts (lst.set e wc.incr) (words ++ [wc.word]) := by
  obtain ⟨pre, post, hlst, hset⟩ := set_split he
  have hnodup := h.nodup
  have hwc := (h.mem_iff wc).1 (by rw [hlst]; exact List.mem_append_right _ List.mem_cons_self)
  rw [hlst, List.map_append, List.map_cons, List.nodup_middle, List.nodup_cons, ← List.map_append,
    List.mem_map] at hnodup
  obtain ⟨hother, hrest⟩ := hnodup
  rw [hset wc.incr]
  refine ⟨?_, fun wc' => ?_⟩
  · rw [List.map_append, List.map_cons, List.nodup_middle, List.nodup_cons, ← List.map_append,
      List.mem_map]
    exact ⟨hother, hrest⟩
  · have hmem : ∀ x : WordCount W, wc' ∈ pre ++ x :: post ↔ wc' = x ∨ wc' ∈ pre ++ post := fun x => by
      rw [List.perm_middle.mem_iff, List.mem_cons]
    have hold := h.mem_iff wc'
    rw [hlst, hmem] at hold
    rw [hmem, List.mem_append (s := words), List.mem_singleton, List.count_append]
    by_cases hword : wc'.word = wc.word
    · -- the element that is counted up
      have hnot : wc' ∉ pre ++ post := fun hin => hother ⟨wc', hin, hword⟩
      have hincr : int32 ((words.count wc.word + 1 : Nat) : Int) = wc.incr.count := by
        rw [WordCount.incr, hwc.2, int32_incr, Nat.cast_add, Nat.cast_one]
      rw [hword, List.count_singleton_self, hincr]
      constructor
      · rintro (rfl | hin)
        · exact ⟨Or.inr rfl, rfl⟩
        · exact absurd hin hnot
      · rintro ⟨_, hcount⟩
        refine Or.inl ?_
        cases wc' with
        | mk w n =>
            obtain rfl : w = wc.word := hword
            obtain rfl : n = wc.incr.count := hcount
            rfl
    · have hne : wc' ≠ wc.incr := fun heq => hword (by rw [heq]; rfl)
      have hne' : wc' ≠ wc := fun heq => hword (by rw [heq])
      have hcount : [wc.word].count wc'.word = 0 := List.count_eq_zero.2 (by simpa using hword)
      rw [hcount, Nat.add_zero]
      simpa [hne, hne', hword] using hold

end Counts

/-! ## `word_count_l.c` -/

theorem WordCountL.add_word_counts (h : Counts lst words) (word : W) :
    Counts (WordCountL.add_word lst word) (words ++ [word]) := by
  rw [WordCountL.add_word]
  cases hfind : WordCountL.find_word lst word with
  | none =>
      refine h.insert fun wc hwc => ?_
      have hnone := List.findIdx?_eq_none_iff.1 hfind wc hwc
      simpa using hnone
  | some elem =>
      obtain ⟨hlt, hword, -⟩ := List.findIdx?_eq_some_iff_getElem.1 hfind
      have hget : lst[elem]? = some lst[elem] := List.getElem?_eq_getElem hlt
      have hmodify : lst.modify elem WordCount.incr = lst.set elem lst[elem].incr := by
        rw [List.modify_eq_set_getElem?, hget]
        rfl
      obtain rfl : lst[elem].word = word := by simpa using hword
      simp only [hmodify]
      exact h.incr hget

theorem WordCountL.count_words_counts (words : List W) :
    Counts (WordCountL.count_words words) words := by
  have hfold : ∀ (ws seen : List W) (l : List (WordCount W)), Counts l seen →
      Counts (ws.foldl WordCountL.add_word l) (seen ++ ws) := by
    intro ws
    induction ws with
    | nil =>
        intro seen l h
        rwa [List.append_nil]
    | cons w ws ih =>
        intro seen l h
        have hnext := ih (seen ++ [w]) _ (WordCountL.add_word_counts h w)
        rwa [List.append_assoc, List.singleton_append] at hnext
  have hall := hfold words [] [] Counts.nil
  rwa [List.nil_append] at hall

end Berk162
