import Minima.Proofs.GeneralTexts
import Minima.Selection.PointText
import Mathlib.Data.List.Forall2

/-!
# Points that are spelled out

A point is spelled with a token for each component: between two of them stand separators, there may be
more of them at both ends, brackets around those, and blanks around the brackets. However that is done,
reading finds the tokens again, neither more nor fewer, and in their order. So it gives what the tokens
stand for, if each of them stands for a finite double, and fails with a complaint about the
configuration if one of them does not. A point that is written is such a spelling.
-/

namespace Minima.PointText

open Text

/-! ## Spellings -/

/-- Characters of one kind, maybe none. -/
structure Stretch (p : Char → Bool) where
  chars : List Char
  all : ∀ c ∈ chars, p c = true

/-- What stands between two tokens: separators, at least one. -/
structure Gap extends Stretch separates where
  nonempty : chars ≠ []

/-- What stands for a component: characters that are neither separators nor brackets, at least one. -/
structure Token where
  chars : List Char
  nonempty : chars ≠ []
  plain : ∀ c ∈ chars, separates c = false ∧ isBracket c = false

def Token.text (t : Token) : String := String.ofList t.chars

structure Spelling where
  before : Stretch isBlank
  opening : Stretch isBracket
  lead : Stretch separates
  first : Token
  rest : List (Gap × Token)
  trail : Stretch separates
  closing : Stretch isBracket
  after : Stretch isBlank

/-- Tokens that follow another one, each after a gap. -/
def joined : List (Gap × Token) → List Char
  | [] => []
  | (gap, token) :: rest => gap.chars ++ (token.chars ++ joined rest)

namespace Spelling

variable (s : Spelling)

def body : List Char := s.lead.chars ++ (s.first.chars ++ (joined s.rest ++ s.trail.chars))

def text : String := String.ofList
  (s.before.chars ++ (s.opening.chars ++ (s.body ++ (s.closing.chars ++ s.after.chars))))

def tokens : List String := s.first.text :: s.rest.map fun t => t.2.text

end Spelling

/-! ## What is found -/

theorem separates_of_isBlank {c : Char} (h : isBlank c = true) : separates c = true := by
  simp [separates, h]

theorem isBracket_of_separates {c : Char} (h : separates c = true) : isBracket c = false := by
  by_contra hbracket
  simp only [isBracket, Bool.not_eq_false, Bool.or_eq_true, beq_iff_eq] at hbracket
  obtain ((rfl | rfl) | rfl) | rfl := hbracket <;> exact absurd h (by decide)

theorem isBlank_of_isBracket {c : Char} (h : isBracket c = true) : isBlank c = false := by
  by_contra hblank
  have hseparates := separates_of_isBlank (Bool.not_eq_false _ ▸ hblank)
  exact absurd (h.symm.trans (isBracket_of_separates hseparates)) (by decide)

theorem splitWords_joined (first : Token) (rest : List (Gap × Token)) (trail : Stretch separates) :
    splitWords separates (first.chars ++ (joined rest ++ trail.chars)) =
      first.chars :: rest.map fun t => t.2.chars := by
  induction rest generalizing first with
  | nil =>
      have htrail : ∀ c ∈ trail.chars.head?, separates c = true := fun c hc =>
        trail.all c (List.mem_of_mem_head? hc)
      rw [joined, List.nil_append, splitWords_word first.nonempty (fun c hc => (first.plain c hc).1)
        htrail, splitWords_separators trail.all]
      rfl
  | cons next rest ih =>
      obtain ⟨gap, token⟩ := next
      have hgap : ∀ c ∈ (gap.chars ++ (token.chars ++ (joined rest ++ trail.chars))).head?,
          separates c = true := by
        obtain ⟨d, ds, hd⟩ := List.exists_cons_of_ne_nil gap.nonempty
        rw [hd]
        rintro c ⟨⟩
        exact gap.all d (by simp [hd])
      have hshape : joined ((gap, token) :: rest) ++ trail.chars =
          gap.chars ++ (token.chars ++ (joined rest ++ trail.chars)) := by simp [joined]
      rw [hshape, splitWords_word first.nonempty (fun c hc => (first.plain c hc).1) hgap,
        splitWords_separators_append _ gap.all, ih]
      rfl

theorem isBracket_joined (rest : List (Gap × Token)) : ∀ c ∈ joined rest, isBracket c = false := by
  induction rest with
  | nil => simp [joined]
  | cons next rest ih =>
      obtain ⟨gap, token⟩ := next
      simp only [joined, List.mem_append]
      rintro c (hc | hc | hc)
      · exact isBracket_of_separates (gap.all c hc)
      · exact (token.plain c hc).2
      · exact ih c hc

namespace Spelling

variable (s : Spelling)

theorem isBracket_body : ∀ c ∈ s.body, isBracket c = false := by
  simp only [body, List.mem_append]
  rintro c (hc | hc | hc | hc)
  · exact isBracket_of_separates (s.lead.all c hc)
  · exact (s.first.plain c hc).2
  · exact isBracket_joined s.rest c hc
  · exact isBracket_of_separates (s.trail.all c hc)

/-- Some character inside the brackets is not blank. -/
theorem exists_not_blank : ∃ c ∈ s.body, isBlank c = false := by
  obtain ⟨c, cs, hc⟩ := List.exists_cons_of_ne_nil s.first.nonempty
  have hmem : c ∈ s.first.chars := by simp [hc]
  refine ⟨c, by simp [body, hmem], ?_⟩
  by_contra hblank
  have hseparates := separates_of_isBlank (Bool.not_eq_false _ ▸ hblank)
  exact absurd (hseparates.symm.trans (s.first.plain c hmem).1) (by decide)

/-- What is left inside the brackets has the same words: only blanks are removed there. -/
theorem exists_inner : ∃ inner, stripChars isBracket (stripChars isBlank s.text.toList) = inner ∧
    splitWords separates inner = splitWords separates s.body := by
  obtain ⟨before, inner, after, hbody, hbefore, hafter, hstrip⟩ := stripChars_fenced s.before.all
    (fun c hc => isBlank_of_isBracket (s.opening.all c hc)) s.exists_not_blank
    (fun c hc => isBlank_of_isBracket (s.closing.all c hc)) s.after.all
  have hinner : ∀ c ∈ inner, isBracket c = false := fun c hc =>
    s.isBracket_body c (by simp [hbody, hc])
  refine ⟨inner, ?_, ?_⟩
  · rw [text, String.toList_ofList, hstrip,
      stripChars_append s.opening.all hinner s.closing.all]
  · rw [hbody, splitWords_separators_append _ fun c hc => separates_of_isBlank (hbefore c hc),
      splitWords_append_separators _ fun c hc => separates_of_isBlank (hafter c hc)]

/-- Reading finds the tokens. -/
theorem components_text : components s.text = s.tokens := by
  obtain ⟨inner, hinner, hwords⟩ := s.exists_inner
  rw [components, hinner, hwords, body, splitWords_separators_append _ s.lead.all,
    splitWords_joined, List.map_cons, List.map_map]
  rfl

/-- A character of the first token is in the text. -/
theorem mem_text {c : Char} (hc : c ∈ s.first.chars) : c ∈ s.text.toList := by
  simp [text, body, hc]

end Spelling

/-! ## Words that stand for no point -/

theorem isBlank_of_digit {c : Char} (h : (digitValue? c).isSome = true) : isBlank c = false := by
  obtain ⟨z, hz, hlower, hupper⟩ := exists_zero_of_digit h
  have hapart : ∀ z ∈ digitZeros, 32 < z ∧ (z + 10 ≤ 0x85 ∨ 0xA0 < z) ∧
      (z + 10 ≤ 0x1680 ∨ 0x1680 < z) ∧ (z + 10 ≤ 0x2000 ∨ 0x3000 < z) := by
    decide +kernel
  have hz' := hapart z hz
  simp only [isBlank, Bool.or_eq_false_iff, Bool.and_eq_false_iff, decide_eq_false_iff_not,
    beq_eq_false_iff_ne]
  omega

/-- A text with a digit is not a word that stands for no point. -/
theorem isDefault_of_digit {text : String} {c : Char} (hc : c ∈ text.toList)
    (hdigit : (digitValue? c).isSome = true) : isDefault text = false := by
  have hwords : ∀ w ∈ defaultWords, w.toList.all (fun d => (digitValue? d).isNone) = true := by
    decide
  have hmem : c ∈ (lowercase (strip text)).toList := by
    rw [lowercase, strip, String.toList_ofList, String.toList_ofList, List.mem_flatMap]
    refine ⟨c, mem_stripChars hc (isBlank_of_digit hdigit), ?_⟩
    rw [lowercaseChar_of_digit hdigit]
    exact List.mem_singleton_self c
  by_contra hdefault
  rw [isDefault, Bool.not_eq_false, List.contains_iff_mem] at hdefault
  have hnone := List.all_eq_true.mp (hwords _ hdefault) c hmem
  rw [Option.isNone_iff_eq_none.mp hnone] at hdigit
  cases hdigit

/-- A numeral of a finite double has a digit. -/
theorem exists_digit_of_isFinite {s : String} {v : Float} (h : Double.ofText? s = some v)
    (hv : v.isFinite = true) : ∃ c ∈ s.toList, (digitValue? c).isSome = true := by
  obtain ⟨numeral, hnumeral, rfl⟩ := Option.map_eq_some_iff.mp h
  cases numeral with
  | decimal negative mantissa exponent => exact Numeral.exists_digit_of_decimal hnumeral
  | infinite negative =>
      cases negative
      · exact absurd hv (by decide +kernel)
      · exact absurd hv (by decide +kernel)
  | undefined => exact absurd hv (by decide +kernel)

/-! ## What is read -/

section Reading

variable {R : Type} [Scalar R] {text : String} {values : List R}

/-- What becomes of the components when each of them has been read. -/
theorem read?_of_mapM (hdefault : isDefault text = false)
    (hread : (components text).mapM (Scalar.ofText? (R := R)) = some values) (hne : values ≠ [])
    (n? : Option Nat) : read? text n? =
      if values.all Scalar.isFinite = false then .error (.configuration .pointNotFinite)
      else
        match n? with
        | some n =>
          if values.length ≠ n then .error (.configuration (.pointSize n values.length))
          else .ok (some values.toArray)
        | none => .ok (some values.toArray) := by
  obtain ⟨v, values, rfl⟩ := List.exists_cons_of_ne_nil hne
  simp only [read?, hdefault, hread, Bool.false_eq_true, if_false, Bool.not_eq_true']
  split
  · rfl
  · cases n? with
    | none => rfl
    | some n =>
        simp only [ne_eq]
        split
        · rfl
        · rfl

theorem read?_of_mapM_none (hdefault : isDefault text = false)
    (hread : (components text).mapM (Scalar.ofText? (R := R)) = none) (n? : Option Nat) :
    read? (R := R) text n? = .error (.configuration (.pointUnreadable text)) := by
  rw [read?, hdefault, hread]
  rfl

end Reading

/-- The text is a numeral of the finite double. -/
def Reads (t : String) (v : Float) : Prop := Scalar.ofText? t = some v ∧ Scalar.isFinite v = true

variable {words : List String} {values : List Float}

theorem mapM_of_reads (h : List.Forall₂ Reads words values) :
    words.mapM Scalar.ofText? = some values ∧ values.all Scalar.isFinite = true := by
  induction h with
  | nil => exact ⟨rfl, rfl⟩
  | @cons t v words values hv _ ih =>
      refine ⟨?_, ?_⟩
      · rw [List.mapM_cons, hv.1, ih.1]
        rfl
      · rw [List.all_cons, hv.2, ih.2]
        rfl

/-- When all words are read and what is read is finite, each word is a numeral of a finite double. -/
theorem exists_reads_of_mapM (h : words.mapM Scalar.ofText? = some values)
    (hfinite : values.all Scalar.isFinite = true) : ∀ t ∈ words, ∃ v, Reads t v := by
  induction words generalizing values with
  | nil => simp
  | cons t words ih =>
      rw [List.mapM_cons] at h
      obtain ⟨v, hv, h⟩ := Option.bind_eq_some_iff.mp h
      obtain ⟨values, hvalues, h⟩ := Option.bind_eq_some_iff.mp h
      cases h
      simp only [List.all_cons, Bool.and_eq_true] at hfinite
      exact List.forall_mem_cons.mpr ⟨⟨v, hv, hfinite.1⟩, ih hvalues hfinite.2⟩

namespace Spelling

variable (s : Spelling)

/-- Numerals of finite doubles are not taken for a word that stands for no point. -/
theorem isDefault_text (h : List.Forall₂ Reads s.tokens values) : isDefault s.text = false := by
  obtain ⟨v, values, hv, -, rfl⟩ := List.forall₂_cons_left_iff.mp h
  obtain ⟨c, hc, hdigit⟩ := exists_digit_of_isFinite hv.1 hv.2
  rw [Token.text, String.toList_ofList] at hc
  exact isDefault_of_digit (s.mem_text hc) hdigit

/-- What the tokens stand for is read. -/
theorem read?_text (h : List.Forall₂ Reads s.tokens values) (n? : Option Nat) :
    read? s.text n? =
      match n? with
      | some n =>
        if n = s.tokens.length then .ok (some values.toArray)
        else .error (.configuration (.pointSize n s.tokens.length))
      | none => .ok (some values.toArray) := by
  obtain ⟨hread, hfinite⟩ := mapM_of_reads h
  have hlength : values.length = s.tokens.length := h.length_eq.symm
  have hne : values ≠ [] := by
    refine List.ne_nil_of_length_pos ?_
    rw [hlength, tokens, List.length_cons]
    exact Nat.succ_pos _
  rw [← s.components_text] at hread
  rw [read?_of_mapM (s.isDefault_text h) hread hne, hfinite, hlength]
  cases n? with
  | none => rfl
  | some n =>
      by_cases hn : n = s.tokens.length
      · simp [hn]
      · simp [hn, Ne.symm hn]

/-- A token that is no numeral of a finite double is refused. -/
theorem read?_text_of_not (hdefault : isDefault s.text = false)
    (h : ∃ t ∈ s.tokens, ∀ v, ¬ Reads t v) (n? : Option Nat) :
    read? (R := Float) s.text n? = .error (.configuration (.pointUnreadable s.text)) ∨
      read? (R := Float) s.text n? = .error (.configuration .pointNotFinite) := by
  cases hread : (components s.text).mapM (Scalar.ofText? (R := Float)) with
  | none => exact .inl (read?_of_mapM_none hdefault hread n?)
  | some values =>
      right
      have hsplit : s.tokens.mapM (Scalar.ofText? (R := Float)) = some values := by
        rw [← s.components_text, hread]
      have hfinite : values.all Scalar.isFinite = false := by
        by_contra hall
        obtain ⟨t, ht, hnot⟩ := h
        obtain ⟨v, hv⟩ := exists_reads_of_mapM hsplit (Bool.not_eq_false _ ▸ hall) t ht
        exact hnot v hv
      have hne : values ≠ [] := by
        rintro rfl
        cases hfinite
      rw [read?_of_mapM hdefault hread hne, if_pos hfinite]

end Spelling

/-! ## What is written -/

def comma : Gap where
  chars := [',', ' ']
  all := List.forall_mem_cons.mpr ⟨rfl, List.forall_mem_cons.mpr ⟨rfl, by simp⟩⟩
  nonempty := by simp

def listed (first : Token) (others : List Token) : Spelling where
  before := ⟨[], by simp⟩
  opening := ⟨[], by simp⟩
  lead := ⟨[], by simp⟩
  first := first
  rest := others.map fun t => (comma, t)
  trail := ⟨[], by simp⟩
  closing := ⟨[], by simp⟩
  after := ⟨[], by simp⟩

theorem tokens_listed (first : Token) (others : List Token) :
    (listed first others).tokens = (first :: others).map Token.text := by
  simp [Spelling.tokens, listed]

theorem toList_intercalate_comma (first : Token) (others : List Token) :
    (", ".intercalate ((first :: others).map Token.text)).toList =
      first.chars ++ joined (others.map fun t => (comma, t)) := by
  induction others generalizing first with
  | nil => simp [joined, Token.text]
  | cons t others ih =>
      have hrest := ih t
      simp only [List.map_cons] at hrest ⊢
      rw [String.intercalate_cons_cons, String.toList_append, String.toList_append, hrest]
      simp [joined, Token.text, comma]

theorem text_listed (first : Token) (others : List Token) :
    (listed first others).text = ", ".intercalate ((first :: others).map Token.text) := by
  rw [← String.toList_inj, toList_intercalate_comma]
  simp [Spelling.text, Spelling.body, listed]

theorem inToken_of_isDigit {c : Char} (h : c.isDigit = true) :
    separates c = false ∧ isBracket c = false := by
  have hbounds : 48 ≤ c.toNat ∧ c.toNat ≤ 57 := Char.isDigit_iff_toNat.mp h
  have hother : ∀ d : Char, d.isDigit = false → (c == d) = false := by
    intro d hd
    rw [beq_eq_false_iff_ne]
    rintro rfl
    exact absurd (h.symm.trans hd) (by decide)
  have hblank : isBlank c = false := isBlank_of_digit (by rw [digitValue?_of_isDigit h]; rfl)
  constructor
  · rw [separates, hother ',' rfl, hother ';' rfl, hblank]
    rfl
  · rw [isBracket, hother '(' rfl, hother ')' rfl, hother '[' rfl, hother ']' rfl]
    rfl

theorem inToken_marks : ∀ c ∈ ['.', 'e', '+', '-'], separates c = false ∧ isBracket c = false := by
  simp only [List.forall_mem_cons]
  exact ⟨by decide, by decide, by decide, by decide, by simp⟩

/-- A finite double is written as a token that stands for a finite double. -/
theorem exists_token {x : Float} (hx : x.isFinite = true) :
    ∃ t : Token, t.text = generalText 6 x ∧ ∃ v, Reads t.text v := by
  have hne : (generalText 6 x).toList ≠ [] := by simpa using generalText_ne_empty hx
  refine ⟨⟨(generalText 6 x).toList, hne, fun c hc => ?_⟩, String.ofList_toList, ?_⟩
  · exact (mem_generalText hx c hc).elim inToken_of_isDigit (inToken_marks c)
  · rw [Token.text, String.ofList_toList]
    exact exists_ofText?_generalText hx

theorem exists_tokens {xs : List Float} (h : ∀ x ∈ xs, x.isFinite = true) :
    ∃ (tokens : List Token) (values : List Float),
      tokens.map Token.text = xs.map (generalText 6) ∧
        List.Forall₂ Reads (tokens.map Token.text) values := by
  induction xs with
  | nil => exact ⟨[], [], rfl, .nil⟩
  | cons x xs ih =>
      obtain ⟨t, ht, v, hv⟩ := exists_token (h x (by simp))
      obtain ⟨tokens, values, htokens, hvalues⟩ := ih fun y hy => h y (by simp [hy])
      exact ⟨t :: tokens, v :: values, by simp [ht, htokens], .cons hv hvalues⟩

/-- A point that is written is read, as what its components are written as. -/
theorem read?_write {x : Array Float} (hne : x ≠ #[]) (hfinite : ∀ v ∈ x, v.isFinite = true) :
    ∃ values, List.Forall₂ Reads (x.toList.map (generalText 6)) values ∧
      read? (write x) (some x.size) = .ok (some values.toArray) := by
  have hall : ∀ v ∈ x.toList, v.isFinite = true := by simpa using hfinite
  obtain ⟨tokens, values, htokens, hvalues⟩ := exists_tokens hall
  cases tokens with
  | nil =>
      have hnil : x.toList = [] := by simpa using htokens.symm
      exact absurd (Array.toList_eq_nil_iff.mp hnil) hne
  | cons first others =>
      rw [← tokens_listed] at hvalues
      have htext : write x = (listed first others).text := by rw [write, ← htokens, text_listed]
      have hsize : x.size = (listed first others).tokens.length := by
        rw [tokens_listed, htokens, List.length_map, Array.length_toList]
      refine ⟨values, ?_, ?_⟩
      · rwa [← htokens, ← tokens_listed]
      · rw [htext]
        exact ((listed first others).read?_text hvalues _).trans (if_pos hsize)

/-- However a point is spelled, what its tokens stand for is read, with as many components as there are
tokens; when one of them is no numeral of a finite double, the point is refused, whatever its size has
to be. So a point that is written can be read. -/
theorem read?_spelled :
    (∀ (s : Spelling) (values : List Float), List.Forall₂ Reads s.tokens values →
      read? s.text none = .ok (some values.toArray) ∧
        read? s.text (some s.tokens.length) = .ok (some values.toArray) ∧
        ∀ n, n ≠ s.tokens.length → read? (R := Float) s.text (some n) =
          .error (.configuration (.pointSize n s.tokens.length))) ∧
    (∀ s : Spelling, isDefault s.text = false → (∃ t ∈ s.tokens, ∀ v, ¬ Reads t v) →
      ∀ n?, read? (R := Float) s.text n? = .error (.configuration (.pointUnreadable s.text)) ∨
        read? (R := Float) s.text n? = .error (.configuration .pointNotFinite)) ∧
    ∀ x : Array Float, x ≠ #[] → (∀ v ∈ x, Scalar.isFinite v = true) →
      ∃ values, List.Forall₂ Reads (x.toList.map (generalText 6)) values ∧
        read? (write x) (some x.size) = .ok (some values.toArray) := by
  refine ⟨fun s values h => ⟨s.read?_text h none, ?_, fun n hn => ?_⟩, ?_, ?_⟩
  · exact (s.read?_text h _).trans (if_pos rfl)
  · exact (s.read?_text h _).trans (if_neg hn)
  · exact fun s hdefault h n? => s.read?_text_of_not hdefault h n?
  · exact fun x hne hfinite => read?_write hne hfinite

def bracketed : Spelling where
  before := ⟨[' '], by simp; rfl⟩
  opening := ⟨['('], by simp; rfl⟩
  lead := ⟨[], by simp⟩
  first := ⟨['1'], by simp, by simp; decide⟩
  rest := [(⟨⟨[';', ' '], by simp; decide⟩, by simp⟩, ⟨['2', '.', '5'], by simp, by simp; decide⟩)]
  trail := ⟨[], by simp⟩
  closing := ⟨[')'], by simp; rfl⟩
  after := ⟨[], by simp⟩

def lettered : Spelling := listed ⟨['1'], by simp, by simp; decide⟩ [⟨['x'], by simp, by simp; decide⟩]

theorem read?_spelled_bracketed :
    read? (R := Float) " (1; 2.5)" (some 2) = .ok (some #[1.0, 2.5]) ∧
      read? (R := Float) " (1; 2.5)" (some 3) = .error (.configuration (.pointSize 3 2)) ∧
      (read? (R := Float) "1, x" none = .error (.configuration (.pointUnreadable "1, x")) ∨
        read? (R := Float) "1, x" none = .error (.configuration .pointNotFinite)) ∧
      ∃ values, List.Forall₂ Reads [generalText 6 1.0] values ∧
        read? (write #[1.0]) (some 1) = .ok (some values.toArray) := by
  obtain ⟨hread, hrefused, hwrite⟩ := read?_spelled
  have h := hread bracketed [1.0, 2.5] (.cons ⟨rfl, rfl⟩ (.cons ⟨rfl, rfl⟩ .nil))
  have hletter : ∀ v, ¬ Reads "x" v := fun v hv => nomatch (hv.1 : none = some v)
  refine ⟨h.2.1, h.2.2 3 (by decide), ?_, ?_⟩
  · exact hrefused lettered rfl ⟨"x", .tail _ (.head _), hletter⟩ none
  · exact hwrite #[1.0] (by simp) (by simp; rfl)

end Minima.PointText
