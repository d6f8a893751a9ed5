import Minima.Text.Blank

/-!
# Words between separators

What is left of a text when the characters of a kind are removed from both ends, and what its words
are. Nothing inside is lost, and what is removed at the ends makes no difference to the words as long
as it separates.
-/

namespace Minima.Text

variable {p separates : Char → Bool}

/-! ## Both ends -/

theorem dropWhile_append_of_not {inner : List Char} (rest : List Char) (hne : inner ≠ [])
    (h : ∀ c ∈ inner, p c = false) : (inner ++ rest).dropWhile p = inner ++ rest := by
  obtain ⟨c, inner, rfl⟩ := List.exists_cons_of_ne_nil hne
  exact List.dropWhile_cons_of_neg (by simp [h c])

theorem takeWhile_all (cs : List Char) : ∀ c ∈ cs.takeWhile p, p c = true :=
  List.all_eq_true.mp List.all_takeWhile

theorem mem_dropWhile_of_not {cs : List Char} {c : Char} (hc : c ∈ cs) (hp : p c = false) :
    c ∈ cs.dropWhile p := by
  rw [← List.takeWhile_append_dropWhile (p := p) (l := cs), List.mem_append] at hc
  exact hc.resolve_left fun h => by simp [takeWhile_all cs c h] at hp

/-- What is not of the kind stays, and all that is around it goes. -/
theorem stripChars_append {before inner after : List Char} (hbefore : ∀ c ∈ before, p c = true)
    (hinner : ∀ c ∈ inner, p c = false) (hafter : ∀ c ∈ after, p c = true) :
    stripChars p (before ++ (inner ++ after)) = inner := by
  rw [stripChars, List.dropWhile_append_of_pos hbefore]
  by_cases hne : inner = []
  · subst hne
    rw [List.nil_append, ← List.append_nil after, List.dropWhile_append_of_pos hafter]
    rfl
  · rw [dropWhile_append_of_not after hne hinner, List.reverse_append,
      List.dropWhile_append_of_pos (by simpa using hafter), ← List.append_nil inner.reverse,
      dropWhile_append_of_not [] (by simpa using hne) (by simpa using hinner), List.append_nil,
      List.reverse_reverse]

/-- What is of the kind is removed up to the first that is not, which may be a fence around the rest. -/
theorem dropWhile_fenced {outer fence body : List Char} (rest : List Char)
    (houter : ∀ c ∈ outer, p c = true) (hfence : ∀ c ∈ fence, p c = false)
    (hbody : ∃ c ∈ body, p c = false) :
    ∃ before body', body = before ++ body' ∧ (∀ c ∈ before, p c = true) ∧
      (∃ c ∈ body', p c = false) ∧
      (outer ++ (fence ++ (body ++ rest))).dropWhile p = fence ++ (body' ++ rest) := by
  rw [List.dropWhile_append_of_pos houter]
  by_cases hne : fence = []
  · subst hne
    obtain ⟨c, hc, hpc⟩ := hbody
    have hmem := mem_dropWhile_of_not hc hpc
    refine ⟨body.takeWhile p, body.dropWhile p, List.takeWhile_append_dropWhile.symm,
      takeWhile_all body, ⟨c, hmem, hpc⟩, ?_⟩
    rw [List.nil_append, List.nil_append, List.dropWhile_append, if_neg]
    simpa using List.ne_nil_of_mem hmem
  · exact ⟨[], body, rfl, by simp, hbody, dropWhile_append_of_not _ hne hfence⟩

/-- Removing characters at both ends leaves the fences, and inside them all that is not of the kind. -/
theorem stripChars_fenced {outer opening body closing outer' : List Char}
    (houter : ∀ c ∈ outer, p c = true) (hopening : ∀ c ∈ opening, p c = false)
    (hbody : ∃ c ∈ body, p c = false) (hclosing : ∀ c ∈ closing, p c = false)
    (houter' : ∀ c ∈ outer', p c = true) :
    ∃ before body' after, body = before ++ (body' ++ after) ∧ (∀ c ∈ before, p c = true) ∧
      (∀ c ∈ after, p c = true) ∧
      stripChars p (outer ++ (opening ++ (body ++ (closing ++ outer')))) =
        opening ++ (body' ++ closing) := by
  obtain ⟨before, middle, rfl, hbefore, hmiddle, hleft⟩ :=
    dropWhile_fenced (closing ++ outer') houter hopening hbody
  -- the other end is the same with everything turned round
  have houter'' : ∀ c ∈ outer'.reverse, p c = true := by simpa using houter'
  have hclosing' : ∀ c ∈ closing.reverse, p c = false := by simpa using hclosing
  have hmiddle' : ∃ c ∈ middle.reverse, p c = false := by simpa using hmiddle
  obtain ⟨after, body', hreverse, hafter, -, hright⟩ :=
    dropWhile_fenced opening.reverse houter'' hclosing' hmiddle'
  refine ⟨before, body'.reverse, after.reverse, ?_, hbefore, by simpa using hafter, ?_⟩
  · rw [← List.reverse_append, ← hreverse, List.reverse_reverse]
  · have hturned : (opening ++ (middle ++ (closing ++ outer'))).reverse =
        outer'.reverse ++ (closing.reverse ++ (middle.reverse ++ opening.reverse)) := by simp
    rw [stripChars, hleft, hturned, hright]
    simp

/-- A character that is not of the kind is not removed. -/
theorem mem_stripChars {cs : List Char} {c : Char} (hc : c ∈ cs) (hp : p c = false) :
    c ∈ stripChars p cs :=
  List.mem_reverse.mpr
    (mem_dropWhile_of_not (List.mem_reverse.mpr (mem_dropWhile_of_not hc hp)) hp)

/-! ## Words -/

theorem splitWords_cons_of_separates {c : Char} (cs : List Char) (h : separates c = true) :
    splitWords separates (c :: cs) = splitWords separates cs := by
  simp [splitWords, h]

/-- A word that is only one character. -/
theorem splitWords_single {c : Char} {rest : List Char} (hc : separates c = false)
    (hrest : ∀ d ∈ rest.head?, separates d = true) :
    splitWords separates (c :: rest) = [c] :: splitWords separates rest := by
  cases rest with
  | nil => simp [splitWords, hc]
  | cons d rest =>
      have hd : separates d = true := hrest d rfl
      simp [splitWords, hc, hd]

/-- A word goes on with what does not separate. -/
theorem splitWords_cons_cons {c d : Char} (cs : List Char) (hc : separates c = false)
    (hd : separates d = false) :
    splitWords separates (c :: d :: cs) =
      match splitWords separates (d :: cs) with
      | [] => [[c]]
      | w :: ws => (c :: w) :: ws := by
  rw [splitWords.eq_def]
  simp only [hc, hd]
  rfl

/-- A word reaches up to the next separator. -/
theorem splitWords_word {word rest : List Char} (hne : word ≠ [])
    (hword : ∀ c ∈ word, separates c = false) (hrest : ∀ d ∈ rest.head?, separates d = true) :
    splitWords separates (word ++ rest) = word :: splitWords separates rest := by
  induction word with
  | nil => exact absurd rfl hne
  | cons c word ih =>
      have hc := hword c (by simp)
      cases word with
      | nil => exact splitWords_single hc hrest
      | cons d word =>
          have hnext := ih (by simp) fun e he => hword e (by simp [he])
          rw [List.cons_append] at hnext
          rw [List.cons_append, List.cons_append, splitWords_cons_cons _ hc (hword d (by simp)),
            hnext]

/-- Separators at the beginning make no word. -/
theorem splitWords_separators_append {gap : List Char} (rest : List Char)
    (h : ∀ c ∈ gap, separates c = true) :
    splitWords separates (gap ++ rest) = splitWords separates rest := by
  induction gap with
  | nil => rfl
  | cons c gap ih =>
      rw [List.cons_append, splitWords_cons_of_separates _ (h c (by simp)),
        ih fun d hd => h d (by simp [hd])]

/-- Separators alone make no word. -/
theorem splitWords_separators {gap : List Char} (h : ∀ c ∈ gap, separates c = true) :
    splitWords separates gap = [] := by
  simpa [splitWords] using splitWords_separators_append [] h

/-- Separators at the end make no word. -/
theorem splitWords_append_separators (cs : List Char) {gap : List Char}
    (h : ∀ c ∈ gap, separates c = true) :
    splitWords separates (cs ++ gap) = splitWords separates cs := by
  induction cs with
  | nil => exact splitWords_separators h
  | cons c cs ih =>
      rw [List.cons_append]
      cases hc : separates c with
      | true => rw [splitWords_cons_of_separates _ hc, splitWords_cons_of_separates _ hc, ih]
      | false =>
          cases cs with
          | nil =>
              have hgap : ∀ d ∈ gap.head?, separates d = true := fun d hd =>
                h d (List.mem_of_mem_head? hd)
              rw [List.nil_append, splitWords_single hc hgap, splitWords_single hc (by simp),
                splitWords_separators h]
              rfl
          | cons d cs =>
              cases hd : separates d with
              | true =>
                  rw [List.cons_append, splitWords_single hc (by simp [hd]),
                    splitWords_single hc (by simp [hd]), ← List.cons_append, ih]
              | false =>
                  rw [List.cons_append, splitWords_cons_cons _ hc hd, splitWords_cons_cons _ hc hd,
                    ← List.cons_append, ih]

end Minima.Text
