import Mathlib.Data.List.Basic
import Mathlib.Tactic.SplitIfs
import TreeShell.Proofs.Words
import TreeShell.Text.Lines

/-!
# Lines as text and lines as bytes

A text is a line that a line feed ends and the text after it, or it has no line feed. By this
induction the lines of two texts that are joined after a line feed are the lines of the one and the
lines of the other; and the lines that are read from the bytes of a text are the lines of the text,
up to a carriage return at the end.
-/

namespace TreeShell.Text

/-! ## Line by line -/

section Splitting

variable {α : Type} [BEq α] [LawfulBEq α] {lineFeed : α} {line rest : List α}

theorem splitLines_unended (h : lineFeed ∉ rest) : splitLines lineFeed rest = ([], rest) := by
  rw [splitLines, List.splitOn_eq_singleton h]
  rfl

theorem splitLines_ended (h : lineFeed ∉ line) :
    splitLines lineFeed (line ++ lineFeed :: rest) =
      (line :: (splitLines lineFeed rest).1, (splitLines lineFeed rest).2) := by
  obtain ⟨first, others, hrest⟩ :=
    List.exists_cons_of_ne_nil (List.splitOn_ne_nil lineFeed rest)
  rw [splitLines, splitLines, List.splitOn_append_cons_self_of_not_mem h, hrest]
  rfl

end Splitting

theorem lines_unended {rest : List Char} (h : '\n' ∉ rest) :
    lines rest = if rest = [] then [] else [rest] := by
  rw [lines, splitLines_unended h]
  cases rest with
  | nil => rfl
  | cons c rest => rfl

theorem lines_ended {line : List Char} (h : '\n' ∉ line) (rest : List Char) :
    lines (line ++ '\n' :: rest) = line :: lines rest := by
  rw [lines, lines, splitLines_ended h]
  obtain ⟨ended, last⟩ := splitLines '\n' rest
  cases last with
  | nil => rfl
  | cons c last => rfl

/-- What holds of the texts without a line feed, and of a line before a text of which it holds,
holds of every text. -/
theorem line_induction {P : List Char → Prop} (unended : ∀ rest, '\n' ∉ rest → P rest)
    (ended : ∀ line rest, '\n' ∉ line → P rest → P (line ++ '\n' :: rest)) (text : List Char) :
    P text := by
  by_cases hfeed : '\n' ∈ text
  · obtain ⟨line, rest, htext, hline⟩ := List.eq_append_cons_of_mem hfeed
    have hshorter : rest.length < text.length := by
      rw [htext, List.length_append, List.length_cons]
      omega
    rw [htext]
    exact ended line rest hline (line_induction unended ended rest)
  · exact unended text hfeed
termination_by text.length

/-- The lines of two texts of which the first is empty or ends in a line feed. -/
theorem lines_append {front : List Char} (h : front = [] ∨ front.getLast? = some '\n')
    (back : List Char) : lines (front ++ back) = lines front ++ lines back := by
  induction front using line_induction with
  | unended rest hrest =>
    rcases h with rfl | hlast
    · rfl
    · exact absurd (List.mem_of_getLast? hlast) hrest
  | ended line rest hline ih =>
    have hback : rest = [] ∨ rest.getLast? = some '\n' := by
      by_cases hnil : rest = []
      · exact Or.inl hnil
      · rcases h with hempty | hlast
        · exact absurd hempty (by simp)
        · refine Or.inr ?_
          rwa [List.getLast?_append_cons, List.getLast?_cons_of_ne_nil hnil] at hlast
    rw [List.append_assoc, List.cons_append, lines_ended hline, lines_ended hline, ih hback,
      List.cons_append]

/-! ## Ends of lines -/

/-- What is written behind a text starts a line. -/
def IsEnded (text : String) : Prop := text = "" ∨ text.toList.getLast? = some '\n'

theorem ne_empty_of_getLast? {text : String} (h : text.toList.getLast? = some '\n') :
    text ≠ "" := by
  rintro rfl
  exact absurd h (by decide)

theorem getLast?_append {back : String} (h : back.toList.getLast? = some '\n') (front : String) :
    (front ++ back).toList.getLast? = some '\n' := by
  rw [String.toList_append, List.getLast?_append, h, Option.some_or]

theorem IsEnded.append {front back : String} (hfront : IsEnded front) (hback : IsEnded back) :
    IsEnded (front ++ back) := by
  rcases hback with rfl | hlast
  · rwa [String.append_empty]
  · exact Or.inr (getLast?_append hlast front)

/-! ## Bytes of a text -/

/-- The bytes of a text in UTF-8. -/
def encode (text : List Char) : List UInt8 := text.flatMap String.utf8EncodeChar

theorem encode_append (front back : List Char) :
    encode (front ++ back) = encode front ++ encode back :=
  List.flatMap_append

theorem encode_toList (text : String) : encode text.toList = text.toUTF8.data.toList := by
  rw [String.toUTF8_eq_toByteArray, ← String.utf8Encode_toList, List.utf8Encode,
    List.toList_data_toByteArray, encode]

theorem fromUTF8?_encode (text : List Char) :
    String.fromUTF8? ⟨(encode text).toArray⟩ = some (String.ofList text) := by
  have hbytes : (⟨(encode text).toArray⟩ : ByteArray) = text.utf8Encode := by
    refine ByteArray.ext ?_
    rw [List.utf8Encode, List.data_toByteArray, encode]
  rw [hbytes, String.fromUTF8?, dif_pos ByteArray.isValidUTF8_utf8Encode]
  rfl

/-- A byte below 128 stands for itself only. -/
theorem toNat_eq_of_mem_utf8EncodeChar {b : UInt8} {c : Char} (hmem : b ∈ String.utf8EncodeChar c)
    (hb : b.toNat < 128) : c.toNat = b.toNat := by
  have hcode : c.val.toNat = c.toNat := rfl
  rw [String.utf8EncodeChar.eq_1, hcode] at hmem
  split_ifs at hmem <;> simp only [List.mem_cons, List.not_mem_nil, or_false] at hmem
  · rw [hmem, UInt8.toNat_ofNat']
    omega
  · rcases hmem with rfl | rfl <;> rw [UInt8.toNat_ofNat'] at hb <;> omega
  · rcases hmem with rfl | rfl | rfl <;> rw [UInt8.toNat_ofNat'] at hb <;> omega
  · rcases hmem with rfl | rfl | rfl | rfl <;> rw [UInt8.toNat_ofNat'] at hb <;> omega

theorem eq_lineFeed_of_mem {c : Char} (h : 10 ∈ String.utf8EncodeChar c) : c = '\n' :=
  Char.toNat_inj.mp (toNat_eq_of_mem_utf8EncodeChar h (by decide))

theorem eq_carriageReturn_of_mem {c : Char} (h : 13 ∈ String.utf8EncodeChar c) : c = '\r' :=
  Char.toNat_inj.mp (toNat_eq_of_mem_utf8EncodeChar h (by decide))

theorem lineFeed_not_mem_encode {line : List Char} (h : '\n' ∉ line) : 10 ∉ encode line := by
  intro hmem
  obtain ⟨c, hc, hbyte⟩ := List.mem_flatMap.mp hmem
  rw [eq_lineFeed_of_mem hbyte] at hc
  exact h hc

theorem encode_ended (line rest : List Char) :
    encode (line ++ '\n' :: rest) = encode line ++ 10 :: encode rest := by
  rw [encode_append]
  rfl

/-! ## Lines of the input -/

/-- A line of the input that is read where a text has a certain line: it may lack white space at the
end. -/
def ReadAs (line : List Char) (input : Option String) : Prop :=
  ∃ typed, input = some (String.ofList typed) ∧ trim typed = trim line ∧ typed ⊆ line

theorem readAs_of_encode (line : List Char) :
    ReadAs line (String.fromUTF8? ⟨(encode line).toArray⟩) :=
  ⟨line, fromUTF8?_encode line, rfl, List.Subset.refl line⟩

theorem readAs_of_dropCarriageReturn (line : List Char) :
    ReadAs line (String.fromUTF8? ⟨(dropCarriageReturn (encode line)).toArray⟩) := by
  rw [dropCarriageReturn]
  split_ifs with hreturn
  · cases line using List.reverseRecOn with
    | nil => exact readAs_of_encode []
    | append_singleton front c =>
      rw [encode_append] at hreturn ⊢
      have hc : encode [c] = String.utf8EncodeChar c := List.flatMap_singleton _ _
      -- the last byte belongs to the last character, and no other character has this byte
      have hlast : 13 ∈ String.utf8EncodeChar c := by
        rw [hc, List.getLast?_append_of_ne_nil _ String.utf8EncodeChar_ne_nil] at hreturn
        exact List.mem_of_getLast? hreturn
      obtain rfl := eq_carriageReturn_of_mem hlast
      have hdrop : (encode front ++ encode ['\r']).dropLast = encode front :=
        List.dropLast_concat
      rw [hdrop]
      refine ⟨front, fromUTF8?_encode front, ?_, List.subset_append_left _ _⟩
      rw [trim_eq_dropWhile_trimEnd, trim_eq_dropWhile_trimEnd,
        trimEnd_concat_of_isBlank (by decide)]
  · exact readAs_of_encode line

theorem inputLines_unended {rest : List UInt8} (h : 10 ∉ rest) :
    inputLines rest = if rest = [] then [] else [String.fromUTF8? ⟨rest.toArray⟩] := by
  rw [inputLines, splitLines_unended h]
  cases rest with
  | nil => rfl
  | cons b rest => rfl

theorem inputLines_ended {line : List UInt8} (h : 10 ∉ line) (rest : List UInt8) :
    inputLines (line ++ 10 :: rest) =
      String.fromUTF8? ⟨(dropCarriageReturn line).toArray⟩ :: inputLines rest := by
  rw [inputLines, inputLines, splitLines_ended h]
  rfl

/-- The lines of the input are the lines of the text that it encodes. -/
theorem forall₂_readAs_inputLines (text : List Char) :
    List.Forall₂ ReadAs (lines text) (inputLines (encode text)) := by
  induction text using line_induction with
  | unended rest hrest =>
    rw [lines_unended hrest, inputLines_unended (lineFeed_not_mem_encode hrest)]
    cases rest with
    | nil => exact .nil
    | cons c rest =>
      have hbytes : encode (c :: rest) ≠ [] := by
        rw [encode, List.flatMap_cons]
        exact List.append_ne_nil_of_left_ne_nil String.utf8EncodeChar_ne_nil _
      rw [if_neg (List.cons_ne_nil c rest), if_neg hbytes]
      exact .cons (readAs_of_encode _) .nil
  | ended line rest hline ih =>
    rw [lines_ended hline, encode_ended, inputLines_ended (lineFeed_not_mem_encode hline)]
    exact .cons (readAs_of_dropCarriageReturn line) ih

theorem subset_of_mem_lines {text line : List Char} (hline : line ∈ lines text) : line ⊆ text := by
  induction text using line_induction with
  | unended rest hrest =>
    rw [lines_unended hrest] at hline
    split_ifs at hline
    · exact absurd hline List.not_mem_nil
    · rw [List.mem_singleton.mp hline]
      exact List.Subset.refl rest
  | ended first rest hfirst ih =>
    rw [lines_ended hfirst] at hline
    rcases List.mem_cons.mp hline with rfl | hline
    · exact List.subset_append_left _ _
    · intro c hc
      exact List.mem_append_right _ (List.mem_cons_of_mem _ (ih hline hc))

end TreeShell.Text
