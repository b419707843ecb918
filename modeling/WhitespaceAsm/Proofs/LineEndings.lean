import WhitespaceAsm.Proofs.Lines
import WhitespaceAsm.Proofs.Trimming
import WhitespaceAsm.Proofs.Words
import WhitespaceAsm.Source

/-! Line endings. With a carriage return before every line feed each line has one more carriage return
at its end than before. The first of them is taken off with the line feed; any other is a separator
to the words, is part of a comment if there is one, and is trimmed off the listed source. -/
namespace WhitespaceAsm

namespace Delivery

/-- Bytes with a carriage return put before every line feed. -/
def addReturns (content : Bytes) : Bytes :=
  content.flatMap fun byte => if byte = 10 then [13, 10] else [byte]

def withReturns : Delivery → Delivery
  | piece content => piece (addReturns content)
  | failure fault => failure fault

namespace Stretch

def withReturn : Stretch → Stretch
  | .line content true => .line (content ++ [13]) true
  | .line content false => .line content false
  | .broken fault => .broken fault

theorem extend_feed (later : List Stretch) : extend (.ok 10) later = .line [] true :: later := by
  obtain ⟨last, ends⟩ := extend_end (show endsLine (.ok 10) = true by rfl)
  have alone := ends []
  cases alone
  exact ends later

theorem extend_withReturn {byte : UInt8} (inside : byte ≠ 10) (later : List Stretch) :
    extend (.ok byte) (later.map withReturn) = (extend (.ok byte) later).map withReturn := by
  cases later with
  | nil => simp [extend, inside, withReturn]
  | cons next rest =>
    cases next with
    | broken fault => simp [extend, inside, withReturn]
    | line content ended => cases ended <;> simp [extend, inside, withReturn]

theorem foldr_addReturns (content : Bytes) (later : List Stretch) :
    ((addReturns content).map Except.ok).foldr extend (later.map withReturn) =
      ((content.map Except.ok).foldr extend later).map withReturn := by
  induction content with
  | nil => rfl
  | cons byte content ih =>
    simp only [addReturns, List.flatMap_cons] at ih ⊢
    by_cases feed : byte = 10
    · subst feed
      -- The carriage return joins the line that this line feed ends.
      simp only [if_pos, List.map_append, List.foldr_append, ih, List.map_cons, List.map_nil,
        List.foldr_cons, List.foldr_nil, extend_feed]
      rfl
    · simp only [if_neg feed, List.map_append, List.foldr_append, ih, List.map_cons, List.map_nil,
        List.foldr_cons, List.foldr_nil, extend_withReturn feed]

theorem foldr_withReturns (delivery : Delivery) (later : List Stretch) :
    (events delivery.withReturns).foldr extend (later.map withReturn) =
      ((events delivery).foldr extend later).map withReturn := by
  cases delivery with
  | piece content => exact foldr_addReturns content later
  | failure fault => cases fault <;> rfl

end Stretch

theorem stretches_withReturns (deliveries : List Delivery) :
    stretches (deliveries.map withReturns) = (stretches deliveries).map Stretch.withReturn := by
  unfold stretches
  induction deliveries with
  | nil => rfl
  | cons delivery deliveries ih =>
    simp only [List.map_cons, List.flatMap_cons, List.foldr_append, ih]
    exact Stretch.foldr_withReturns delivery _

end Delivery

namespace Text

/- A carriage return takes one byte, which no other character has. -/
theorem exists_of_bytes_return {text : String} {content : Bytes}
    (same : bytes text = content ++ [13]) :
    ∃ before : String, before.push '\r' = text ∧ bytes before = content := by
  have some : text.toList ≠ [] := by
    intro none
    simp [bytes, none, encoded] at same
  obtain ⟨before, split⟩ := List.getLast?_eq_some_iff.mp (List.getLast?_eq_some_getLast some)
  generalize text.toList.getLast some = last at split
  have joined : encoded before ++ String.utf8EncodeChar last = content ++ [13] := by
    simpa [bytes, split, encoded] using same
  have final : (13 : UInt8) ∈ String.utf8EncodeChar last := by
    have ends := congrArg List.getLast? joined
    simp only [List.getLast?_append, List.getLast?_eq_some_getLast String.utf8EncodeChar_ne_nil,
      List.getLast?_singleton, Option.some_or, Option.some.injEq] at ends
    exact ends ▸ List.getLast_mem _
  have code : last.toNat = 13 := toNat_of_mem_encodeChar (by decide) final
  have letter : last = '\r' := by rw [← Char.ofNat_toNat last, code]
  subst letter
  refine ⟨String.ofList before, ?_, ?_⟩
  · apply String.toList_inj.mp
    simp [split]
  · rw [bytes_ofList]
    exact List.append_cancel_right joined

theorem ofBytes?_return (content : Bytes) :
    ofBytes? (content ++ [13]) = (ofBytes? content).map (String.push · '\r') := by
  apply Option.ext
  intro text
  simp only [Option.map_eq_some_iff, ofBytes?_eq_some_iff]
  constructor
  · intro same
    obtain ⟨before, whole, rest⟩ := exists_of_bytes_return same
    exact ⟨before, rest, whole⟩
  · rintro ⟨before, rfl, rfl⟩
    simp only [bytes, String.toList_push, encoded_append]
    rfl

theorem trim_push_blank {c : Char} (blank : c.toNat ∈ whiteSpace) (text : String) :
    trim (text.push c) = trim text := by
  simp only [trim, String.toList_push, trimmed_append_blank blank]

end Text

namespace Statement

variable {c : Char} (gap : isSeparator c = true)
include gap

theorem locate_append_gap (start : Nat) (text : List Char) :
    locate start (text ++ [c]) = locate start text := by
  induction text generalizing start with
  | nil => simp [locate, gap]
  | cons d text ih => simp only [List.cons_append, locate, ih]

/- A separator does not start a comment, but it may be part of one. -/
theorem uncommented_append_gap (line : List Char) :
    uncommented (line ++ [c]) = uncommented line ∨
      uncommented (line ++ [c]) = uncommented line ++ [c] := by
  have letter : c ≠ '/' := by
    rintro rfl
    contradiction
  induction line with
  | nil => simp [uncommented, letter]
  | cons d line ih =>
    have same : (line ++ [c]).head? = some '/' ↔ line.head? = some '/' := by
      cases line <;> simp [letter]
    simp only [List.cons_append, uncommented, same]
    split
    · exact .inl rfl
    · simpa using ih

theorem scan_push_gap (line : String) : scan (line.push c) = scan line := by
  simp only [scan_eq, String.toList_push]
  rcases uncommented_append_gap gap line.toList with same | longer
  · rw [same]
  · rw [longer, locate_append_gap gap]

end Statement

namespace Outcome

theorem ofLine_return (file : String) (number : Nat) (content : Bytes) :
    ofLine file number (.ok (content ++ [13])) = ofLine file number (.ok content) := by
  simp only [ofLine, Text.ofBytes?_return]
  cases Text.ofBytes? content with
  | none => rfl
  | some text =>
    simp only [Option.map_some, ofText, Statement.scan_push_gap (c := '\r') rfl, ofStatement,
      Text.trim_push_blank (c := '\r') (by decide)]

theorem ofLine_dropReturn (file : String) (number : Nat) (content : Bytes) :
    ofLine file number (.ok (Delivery.dropReturn content)) = ofLine file number (.ok content) := by
  unfold Delivery.dropReturn
  split
  · rename_i last
    obtain ⟨before, rfl⟩ := List.getLast?_eq_some_iff.mp last
    rw [List.dropLast_concat, ofLine_return]
  · rfl

theorem ofLine_withReturn (file : String) (number : Nat) (stretch : Delivery.Stretch) :
    ofLine file number stretch.withReturn.read = ofLine file number stretch.read := by
  cases stretch with
  | broken fault => rfl
  | line content ended =>
    cases ended with
    | false => rfl
    | true =>
      simp only [Delivery.Stretch.withReturn, Delivery.Stretch.read, if_pos, ofLine_dropReturn,
        ofLine_return]

end Outcome

theorem Source.outcomes_withReturns (name : String) (deliveries : List Delivery) :
    (Source.mk name (deliveries.map Delivery.withReturns)).outcomes =
      (Source.mk name deliveries).outcomes := by
  simp only [Source.outcomes, Delivery.lines, Delivery.stretches_withReturns, List.zipIdx_map,
    List.map_map]
  apply List.map_congr_left
  intro numbered _
  exact Outcome.ofLine_withReturn name numbered.2 numbered.1

/-- Line endings do not matter. However a source is delivered, a carriage return before every line feed
changes nothing of what a run adds to the program, the listing and the diagnostics, whatever sink it
writes to. -/
theorem line_endings_irrelevant {σ : Type} [Sink σ] (run : Run σ) (name : String)
    (deliveries : List Delivery) :
    run.assembleSource ⟨name, deliveries.map Delivery.withReturns⟩ =
      run.assembleSource ⟨name, deliveries⟩ := by
  simp only [Run.assembleSource, Source.outcomes_withReturns]

end WhitespaceAsm
