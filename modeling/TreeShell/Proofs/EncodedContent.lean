import Mathlib.Data.List.Basic
import TreeShell.Document.Building
import TreeShell.Proofs.Base64
import TreeShell.Proofs.DamagedText

/-!
# Encoded content

The content of a file may be written in base64, with white space at any places. Then the file holds
the text whose bytes were encoded; where these bytes are no UTF-8, it holds what can be read of
them. What is not base64, white space left aside, is the content as it stands.
-/

namespace TreeShell.Document

open Text

/-- The second text is the first one with white space put in at some places. -/
inductive Spaced : List Char → List Char → Prop
  | nil : Spaced [] []
  | keep {text spaced : List Char} (c : Char) (h : Spaced text spaced) :
      Spaced (c :: text) (c :: spaced)
  | blank {text spaced : List Char} {c : Char} (hc : isBlank c = true) (h : Spaced text spaced) :
      Spaced text (c :: spaced)

variable {content : String} {bytes : List UInt8}

/-- A text without white space is what is left of it when white space has been put in. -/
theorem Spaced.filter_eq {text spaced : List Char} (h : Spaced text spaced)
    (htext : ∀ c ∈ text, isBlank c = false) : (spaced.filter fun c => !isBlank c) = text := by
  induction h with
  | nil => rfl
  | keep c _ ih =>
    obtain ⟨hc, htext⟩ := List.forall_mem_cons.mp htext
    rw [List.filter_cons_of_pos (by rw [hc]; rfl), ih htext]
  | blank hc _ ih =>
    rw [List.filter_cons_of_neg (by rw [hc]; decide), ih htext]

/-- The content of a file without white space. -/
def compact (content : String) : List Char := content.toList.filter fun c => !isBlank c

theorem compact_of_spaced (h : Spaced (Base64.encode bytes) content.toList) :
    compact content = Base64.encode bytes :=
  h.filter_eq fun _ => Base64.not_isBlank_of_mem_encode

theorem decodeContent_of_encode (h : compact content = Base64.encode bytes) :
    decodeContent content .base64 = String.ofList (decodeLossy bytes) := by
  have hdecode : Base64.decode (compact content) = some bytes := Base64.decode_eq_some_iff.mpr h
  rw [compact] at hdecode
  rw [decodeContent, hdecode]

theorem decodeContent_of_not_isCanonical (h : ¬ Base64.IsCanonical (compact content)) :
    decodeContent content .base64 = content := by
  have hdecode : Base64.decode (compact content) = none := Base64.decode_eq_none_iff.mpr h
  rw [compact] at hdecode
  rw [decodeContent, hdecode]

/-- Base64 with white space anywhere stands for the text whose bytes it encodes. If it encodes bytes
that are no text, it stands for the one thing that they say as damaged UTF-8, in which every text
that stands among them is kept. Content that is not canonical base64, white space left aside, stays
what it is, and all that is canonical encodes some bytes. -/
theorem base64_content_is_read (content : String) :
    (∀ text : String, Spaced (Base64.encode text.toUTF8.data.toList) content.toList →
      decodeContent content .base64 = text) ∧
    (∀ bytes, compact content = Base64.encode bytes →
      (∀ text, ReadsAs bytes text ↔ decodeContent content .base64 = String.ofList text) ∧
      ∀ front part back before after, bytes = front ++ encode part ++ back → part ≠ [] →
        ReadsAs front before → ReadsAs back after →
        decodeContent content .base64 = String.ofList (before ++ part ++ after)) ∧
    (¬ Base64.IsCanonical (compact content) → decodeContent content .base64 = content) ∧
    (∀ cs, Base64.IsCanonical cs ↔ ∃ bytes, cs = Base64.encode bytes) := by
  refine ⟨?_, ?_, decodeContent_of_not_isCanonical, fun _ => Base64.isCanonical_iff⟩
  · intro text hspaced
    rw [decodeContent_of_encode (compact_of_spaced hspaced), ← encode_toList, decodeLossy_encode,
      String.ofList_toList]
  · intro bytes hbytes
    rw [decodeContent_of_encode hbytes]
    constructor
    · intro text
      rw [readsAs_iff, String.ofList_inj, eq_comm]
    · rintro front part back before after rfl hpart hfront hback
      rw [readsAs_iff.mp (hfront.append_encode hback hpart)]

/-- White space within the padding, a character that is cut off, and bits that should be zero. -/
theorem spaced_content_is_read :
    (Spaced (Base64.encode "éab".toUTF8.data.toList) "w6lh\u3000Yg= =\n".toList ∧
      decodeContent "w6lh\u3000Yg= =\n" .base64 = "éab") ∧
    (compact "4o\tJi" = Base64.encode [0xE2, 0x82, 0x62] ∧
      ReadsAs [0xE2, 0x82] ['\uFFFD'] ∧ ReadsAs [] [] ∧
      decodeContent "4o\tJi" .base64 = "\uFFFDb") ∧
    (¬ Base64.IsCanonical (compact "w6 l=") ∧ decodeContent "w6 l=" .base64 = "w6 l=") := by
  have hspaced : Spaced (Base64.encode "éab".toUTF8.data.toList) "w6lh\u3000Yg= =\n".toList := by
    have hencoded : Base64.encode "éab".toUTF8.data.toList =
        ['w', '6', 'l', 'h', 'Y', 'g', '=', '='] := by decide
    rw [hencoded]
    exact .keep 'w' (.keep '6' (.keep 'l' (.keep 'h' (.blank (by decide) (.keep 'Y' (.keep 'g'
      (.keep '=' (.blank (by decide) (.keep '=' (.blank (by decide) .nil))))))))))
  have hbytes : compact "4o\tJi" = Base64.encode [0xE2, 0x82, 0x62] := by decide
  have hlead : Lead.ofByte? 0xE2 = some ⟨2, 0x80, 0xBF, 0x02⟩ := rfl
  have hdamage : IsDamage [0xE2, 0x82] [] :=
    isDamage_of_follows hlead ⟨by decide, trivial⟩ (by decide) fun _ hlonger _ => hlonger.length_le
  have hfront : ReadsAs [0xE2, 0x82] ['\uFFFD'] := .damage hdamage .nil
  have hcanonical : ¬ Base64.IsCanonical (compact "w6 l=") :=
    Base64.decode_eq_none_iff.mp (by decide)
  obtain ⟨htext, -, -⟩ := base64_content_is_read "w6lh\u3000Yg= =\n"
  obtain ⟨-, hread, -⟩ := base64_content_is_read "4o\tJi"
  obtain ⟨-, -, hraw, -⟩ := base64_content_is_read "w6 l="
  have hkept := (hread _ hbytes).2 [0xE2, 0x82] ['b'] [] _ _ (by decide) (by decide) hfront .nil
  exact ⟨⟨hspaced, htext "éab" hspaced⟩, ⟨hbytes, hfront, .nil, hkept⟩, hcanonical, hraw hcanonical⟩

end TreeShell.Document
