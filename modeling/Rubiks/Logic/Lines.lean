import Mathlib.Data.List.Basic

/-!
# Cutting a stream after a separator

`splitAfter` cuts a stream after each separator, as a reader that takes one
separator-terminated record at a time sees it; what follows the last separator
is a last, unterminated record. A reader that receives the stream in chunks keeps
the unfinished record between them (`feed`) and sees the same records however the
stream was cut (`readChunks_eq`).
-/

namespace Rubiks.Logic

variable {α : Type*} [DecidableEq α]

def splitAfter (sep : α) : List α → List (List α)
  | [] => []
  | b :: bs =>
    if b = sep then [b] :: splitAfter sep bs
    else match splitAfter sep bs with
      | [] => [[b]]
      | l :: ls => (b :: l) :: ls

/-- A record: the separator is its last element and occurs nowhere else. -/
def Terminated (sep : α) (l : List α) : Prop := ∃ body, l = body ++ [sep] ∧ sep ∉ body

/-- A record at the front of a stream is the first one cut. -/
theorem splitAfter_append {sep : α} {l : List α} (h : Terminated sep l) (rest : List α) :
    splitAfter sep (l ++ rest) = l :: splitAfter sep rest := by
  obtain ⟨body, rfl, free⟩ := h
  induction body with
  | nil => simp [splitAfter]
  | cons b body ih =>
    have other : b ≠ sep := fun e => free (by simp [e])
    have tail := ih fun mem => free (by simp [mem])
    show splitAfter sep (b :: (body ++ [sep] ++ rest)) = _
    rw [splitAfter, if_neg other, tail]
    rfl

/-- **A stream of records is cut back into those records.** -/
theorem splitAfter_flatten {sep : α} {ls : List (List α)} (h : ∀ l ∈ ls, Terminated sep l) :
    splitAfter sep ls.flatten = ls := by
  induction ls with
  | nil => rfl
  | cons l ls ih =>
    rw [List.flatten_cons, splitAfter_append (h l (by simp)), ih fun l' mem => h l' (by simp [mem])]

/-- Nothing of the stream is lost. -/
theorem flatten_splitAfter (sep : α) (stream : List α) : (splitAfter sep stream).flatten = stream := by
  induction stream with
  | nil => rfl
  | cons b stream ih =>
    rw [splitAfter]
    by_cases ends : b = sep
    · rw [if_pos ends, List.flatten_cons, ih]
      rfl
    · rw [if_neg ends]
      cases records : splitAfter sep stream with
      | nil =>
        rw [records] at ih
        rw [← ih]
        rfl
      | cons l ls =>
        rw [records] at ih
        rw [← ih]
        rfl

/-- A stream that ends within a record has that part as its last record. -/
theorem splitAfter_flatten_append {sep : α} {ls : List (List α)} (h : ∀ l ∈ ls, Terminated sep l) {tail : List α}
    (nonempty : tail ≠ []) (open_ : sep ∉ tail) : splitAfter sep (ls.flatten ++ tail) = ls ++ [tail] := by
  induction ls with
  | nil =>
    clear h
    rw [List.flatten_nil, List.nil_append, List.nil_append]
    induction tail with
    | nil => exact absurd rfl nonempty
    | cons b tail ih =>
      have other : b ≠ sep := fun e => open_ (by simp [e])
      rw [splitAfter, if_neg other]
      cases tail with
      | nil => rfl
      | cons b' tail => rw [ih (by simp) fun mem => open_ (by simp [mem])]
  | cons l ls ih =>
    rw [List.flatten_cons, List.append_assoc, splitAfter_append (h l (by simp)), ih fun l' mem => h l' (by simp [mem])]
    rfl

/-- No record is empty. -/
theorem ne_nil_of_mem_splitAfter {sep : α} {stream record : List α} (mem : record ∈ splitAfter sep stream) :
    record ≠ [] := by
  induction stream generalizing record with
  | nil => cases mem
  | cons b stream ih =>
    rw [splitAfter] at mem
    by_cases ends : b = sep
    · rw [if_pos ends] at mem
      rcases List.mem_cons.1 mem with rfl | mem
      · exact List.cons_ne_nil _ _
      · exact ih mem
    · rw [if_neg ends] at mem
      cases records : splitAfter sep stream with
      | nil =>
        rw [records] at mem
        rw [List.mem_singleton.1 mem]
        exact List.cons_ne_nil _ _
      | cons l ls =>
        rw [records] at mem ih
        rcases List.mem_cons.1 mem with rfl | mem
        · exact List.cons_ne_nil _ _
        · exact ih (List.mem_cons_of_mem _ mem)

/-! ## Streams in chunks -/

/-- One chunk: the records that end in it, and what is unfinished after it. -/
def feed (sep : α) (pending : List α) : List α → List (List α) × List α
  | [] => ([], pending)
  | b :: bs =>
    if b = sep then
      let (records, rest) := feed sep [] bs
      ((pending ++ [b]) :: records, rest)
    else feed sep (pending ++ [b]) bs

/-- The records of a stream received in chunks; at its end what is unfinished is the last. -/
def readChunks (sep : α) (pending : List α) : List (List α) → List (List α)
  | [] => if pending = [] then [] else [pending]
  | chunk :: chunks =>
    let (records, rest) := feed sep pending chunk
    records ++ readChunks sep rest chunks

theorem splitAfter_open {sep : α} {pending : List α} (open_ : sep ∉ pending) :
    splitAfter sep pending = if pending = [] then [] else [pending] := by
  by_cases empty : pending = []
  · rw [if_pos empty, empty]
    rfl
  · rw [if_neg empty]
    have none : ∀ l ∈ ([] : List (List α)), Terminated sep l := by simp
    simpa using splitAfter_flatten_append none empty open_

/-- What a chunk completes and leaves, against the whole stream. -/
theorem feed_splitAfter {sep : α} {pending : List α} (open_ : sep ∉ pending) (chunk rest : List α) :
    splitAfter sep (pending ++ chunk ++ rest) =
        (feed sep pending chunk).1 ++ splitAfter sep ((feed sep pending chunk).2 ++ rest) ∧
      sep ∉ (feed sep pending chunk).2 := by
  induction chunk generalizing pending with
  | nil => exact ⟨by simp [feed], open_⟩
  | cons b chunk ih =>
    by_cases ends : b = sep
    · have fresh : sep ∉ ([] : List α) := List.not_mem_nil
      obtain ⟨records, open_'⟩ := ih fresh
      rw [feed, if_pos ends]
      refine ⟨?_, open_'⟩
      have record : Terminated sep (pending ++ [b]) := ⟨pending, by rw [ends], open_⟩
      rw [show pending ++ b :: chunk ++ rest = (pending ++ [b]) ++ ([] ++ chunk ++ rest) by simp,
        splitAfter_append record, records]
      rfl
    · have longer : sep ∉ pending ++ [b] := by simp [open_, Ne.symm ends]
      rw [feed, if_neg ends, List.append_cons]
      exact ih longer

/-- **The records do not depend on how the stream was cut.** -/
theorem readChunks_eq {sep : α} {pending : List α} (open_ : sep ∉ pending) (chunks : List (List α)) :
    readChunks sep pending chunks = splitAfter sep (pending ++ chunks.flatten) := by
  induction chunks generalizing pending with
  | nil => rw [readChunks, List.flatten_nil, List.append_nil, splitAfter_open open_]
  | cons chunk chunks ih =>
    obtain ⟨records, open_'⟩ := feed_splitAfter open_ chunk chunks.flatten
    rw [readChunks, List.flatten_cons, ← List.append_assoc, records, ← ih open_']

end Rubiks.Logic
