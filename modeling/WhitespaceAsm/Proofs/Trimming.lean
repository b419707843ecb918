import WhitespaceAsm.Text

/-! Trimming. White space is given by a list of codes, and trimming is said without an order of reading:
a text is white space, a core that neither starts nor ends with it, and white space again. There is
one such core, so that all that is known of trimmed texts follows from this. -/
namespace WhitespaceAsm

theorem dropWhile_append_stop {A : Type} {drops : A → Bool} {front rest : List A}
    (all : ∀ item ∈ front, drops item = true) (stop : ∀ item ∈ rest.head?, drops item = false) :
    (front ++ rest).dropWhile drops = rest := by
  rw [List.dropWhile_append_of_pos all]
  cases rest with
  | nil => rfl
  | cons item rest => exact List.dropWhile_cons_of_neg (by simp [stop item rfl])

theorem strip_append {A : Type} {drops : A → Bool} {before core after : List A}
    (leading : ∀ item ∈ before, drops item = true) (trailing : ∀ item ∈ after, drops item = true)
    (first : ∀ item ∈ core.head?, drops item = false)
    (last : ∀ item ∈ core.getLast?, drops item = false) :
    (((before ++ core ++ after).dropWhile drops).reverse.dropWhile drops).reverse = core := by
  rw [List.append_assoc]
  -- An empty core has no ends to stop at.
  cases core with
  | nil =>
    have nothing : (before ++ ([] ++ after) ++ []).dropWhile drops = [] :=
      dropWhile_append_stop (List.forall_mem_append.mpr ⟨leading, trailing⟩) (by simp)
    rw [List.append_nil] at nothing
    rw [nothing]
    rfl
  | cons item core =>
    have start : (before ++ (item :: core ++ after)).dropWhile drops = item :: core ++ after :=
      dropWhile_append_stop leading first
    have stop : (after.reverse ++ (item :: core).reverse).dropWhile drops = (item :: core).reverse :=
      dropWhile_append_stop (by simpa using trailing) (by rwa [List.head?_reverse])
    rw [start, List.reverse_append, stop, List.reverse_reverse]

namespace Text

/-- The codes of the 25 characters with the Unicode property White_Space. -/
def whiteSpace : List Nat :=
  [0x09, 0x0A, 0x0B, 0x0C, 0x0D, 0x20, 0x85, 0xA0, 0x1680, 0x2000, 0x2001, 0x2002, 0x2003, 0x2004,
    0x2005, 0x2006, 0x2007, 0x2008, 0x2009, 0x200A, 0x2028, 0x2029, 0x202F, 0x205F, 0x3000]

def Trims (cs core : List Char) : Prop :=
  ∃ before after, cs = before ++ core ++ after ∧ (∀ c ∈ before ++ after, c.toNat ∈ whiteSpace) ∧
    (∀ c ∈ core.head?, c.toNat ∉ whiteSpace) ∧ ∀ c ∈ core.getLast?, c.toNat ∉ whiteSpace

theorem isBlank_iff {c : Char} : isBlank c = true ↔ c.toNat ∈ whiteSpace := by
  simp only [isBlank, whiteSpace, Bool.or_eq_true, Bool.and_eq_true, decide_eq_true_eq, beq_iff_eq,
    List.mem_cons, List.not_mem_nil, or_false]
  omega

theorem isBlank_eq_false_iff {c : Char} : isBlank c = false ↔ c.toNat ∉ whiteSpace := by
  rw [← isBlank_iff, Bool.not_eq_true]

theorem trims_trimmed (cs : List Char) : Trims cs (trimmed cs) := by
  let rest := cs.dropWhile isBlank
  let before := cs.takeWhile isBlank
  let after := (rest.reverse.takeWhile isBlank).reverse
  have back : rest = trimmed cs ++ after := by
    have parts : rest.reverse.takeWhile isBlank ++ rest.reverse.dropWhile isBlank = rest.reverse :=
      List.takeWhile_append_dropWhile
    calc rest = (rest.reverse.takeWhile isBlank ++ rest.reverse.dropWhile isBlank).reverse := by
          rw [parts, List.reverse_reverse]
      _ = trimmed cs ++ after := List.reverse_append
  have whole : cs = before ++ trimmed cs ++ after := by
    rw [List.append_assoc, ← back]
    exact List.takeWhile_append_dropWhile.symm
  refine ⟨before, after, whole, ?_, ?_, ?_⟩
  · intro c member
    apply isBlank_iff.mp
    rcases List.mem_append.mp member with member | member
    · exact List.all_eq_true.mp List.all_takeWhile c member
    · exact List.all_eq_true.mp List.all_takeWhile c (List.mem_reverse.mp member)
  · intro c first
    apply isBlank_eq_false_iff.mp
    have same : rest.head? = some c := by
      obtain ⟨later, core⟩ := List.head?_eq_some_iff.mp first
      rw [back, core]
      rfl
    have inked := List.head?_dropWhile_not isBlank cs
    rw [show cs.dropWhile isBlank = rest from rfl, same] at inked
    exact inked
  · intro c last
    apply isBlank_eq_false_iff.mp
    have inked := List.head?_dropWhile_not isBlank rest.reverse
    rw [trimmed, List.getLast?_reverse] at last
    rw [show rest.reverse.dropWhile isBlank = _ from rfl, last] at inked
    exact inked

theorem Trims.trimmed_eq {cs core : List Char} (trims : Trims cs core) : trimmed cs = core := by
  obtain ⟨before, after, rfl, blank, first, last⟩ := trims
  simp only [← isBlank_iff, Bool.not_eq_true, List.forall_mem_append] at blank first last
  exact strip_append blank.1 blank.2 first last

theorem trimmed_eq_iff {cs core : List Char} : trimmed cs = core ↔ Trims cs core := by
  constructor
  · rintro rfl
    exact trims_trimmed cs
  · exact Trims.trimmed_eq

theorem trimmed_eq_self {cs : List Char} (inked : ∀ c ∈ cs, c.toNat ∉ whiteSpace) : trimmed cs = cs := by
  apply Trims.trimmed_eq
  refine ⟨[], [], by simp, by simp, ?_, ?_⟩
  · exact fun c first => inked c (List.mem_of_mem_head? first)
  · exact fun c last => inked c (List.mem_of_mem_getLast? last)

theorem trimmed_append_blank {c : Char} (blank : c.toNat ∈ whiteSpace) (cs : List Char) :
    trimmed (cs ++ [c]) = trimmed cs := by
  obtain ⟨before, after, whole, blanks, ends⟩ := trims_trimmed cs
  apply Trims.trimmed_eq
  refine ⟨before, after ++ [c], ?_, ?_, ends⟩
  · rw [← List.append_assoc, ← whole]
  · rw [← List.append_assoc]
    exact List.forall_mem_append.mpr ⟨blanks, by simpa using blank⟩

theorem trimmed_eq_nil_iff {cs : List Char} : trimmed cs = [] ↔ ∀ c ∈ cs, c.toNat ∈ whiteSpace := by
  rw [trimmed_eq_iff]
  constructor
  · rintro ⟨before, after, rfl, blank, _⟩
    simpa using blank
  · intro blank
    exact ⟨cs, [], by simp, by simpa using blank, by simp, by simp⟩

theorem mem_of_mem_trimmed {c : Char} {cs : List Char} (member : c ∈ trimmed cs) : c ∈ cs := by
  obtain ⟨before, after, whole, _⟩ := trims_trimmed cs
  rw [whole]
  simp [member]

theorem toList_trim (text : String) : (trim text).toList = trimmed text.toList := by
  simp [trim]

theorem trim_eq_empty_iff_trimmed {text : String} : trim text = "" ↔ trimmed text.toList = [] := by
  simp [trim]

theorem trim_eq_empty_iff {text : String} :
    trim text = "" ↔ ∀ c ∈ text.toList, c.toNat ∈ whiteSpace := by
  rw [trim_eq_empty_iff_trimmed, trimmed_eq_nil_iff]

theorem not_mem_whiteSpace_digit {c : Char} (digit : c.isDigit = true) : c.toNat ∉ whiteSpace := by
  have bounds := Char.isDigit_iff_toNat.mp digit
  simp only [Char.reduceToNat] at bounds
  simp only [whiteSpace, List.mem_cons, List.not_mem_nil, or_false]
  omega

end Text

end WhitespaceAsm
