import Mathlib.Data.List.Basic
import TreeShell.Proofs.CharacterBytes
import TreeShell.Proofs.Lines

/-!
# Damaged text

Where bytes do not start with those of a character, as many of them as can start a character are
damaged, or a single byte if none can. Reading bytes as UTF-8 that may be damaged gives the
characters that stand in them and U+FFFD for each damaged part, and this is the only way to read
them. The bytes of a text that stand anywhere in the bytes are read as this text.
-/

namespace TreeShell.Text

variable {bytes part rest : List UInt8} {text : List Char}

/-! ## Damaged parts -/

/-- The bytes before `rest` are a damaged part: no character stands there, they start a character
or are a single byte, and there is no longer start of a character. -/
structure IsDamage (part rest : List UInt8) : Prop where
  ne_nil : part ≠ []
  starts : StartsChar part ∨ part.length = 1
  no_char : ∀ char, ¬ String.utf8EncodeChar char <+: part ++ rest
  longest : ∀ start, start <+: part ++ rest → StartsChar start → start.length ≤ part.length

/-- What bytes say as UTF-8 that may be damaged. -/
inductive ReadsAs : List UInt8 → List Char → Prop
  | nil : ReadsAs [] []
  | char {rest : List UInt8} {text : List Char} (char : Char) (hrest : ReadsAs rest text) :
      ReadsAs (String.utf8EncodeChar char ++ rest) (char :: text)
  | damage {part rest : List UInt8} {text : List Char} (hpart : IsDamage part rest)
      (hrest : ReadsAs rest text) : ReadsAs (part ++ rest) (replacement :: text)

theorem IsDamage.length_le {other others : List UInt8} (h : IsDamage part rest)
    (hother : IsDamage other others) (heq : part ++ rest = other ++ others) :
    part.length ≤ other.length := by
  rcases h.starts with hstarts | hsingle
  · refine hother.longest part ?_ hstarts
    rw [← heq]
    exact List.prefix_append part rest
  · rw [hsingle]
    exact List.length_pos_iff.mpr hother.ne_nil

/-- There is only one damaged part at the start of given bytes. -/
theorem IsDamage.unique {other others : List UInt8} (h : IsDamage part rest)
    (hother : IsDamage other others) (heq : part ++ rest = other ++ others) :
    part = other ∧ rest = others := by
  have hle := h.length_le hother heq
  have hge := hother.length_le h heq.symm
  exact List.append_inj heq (Nat.le_antisymm hle hge)

/-! ## Reading -/

/-- What is read behind a first byte: all bytes of a character, or too few, which are then all that
may follow where they stand. -/
theorem completeChar_cases (least greatest bits count : Nat) (bytes : List UInt8) :
    ∃ tail rest, bytes = tail ++ rest ∧ Follows least greatest tail ∧
      (tail.length = count ∨
        tail.length < count ∧
          (∀ longer, longer <+: bytes → Follows least greatest longer →
            longer.length ≤ tail.length) ∧
          completeChar least greatest bits count bytes = (none, rest)) := by
  -- the bounds and the bits differ from byte to byte, so the induction is over all of them
  induction count generalizing least greatest bits bytes with
  | zero => exact ⟨[], bytes, rfl, trivial, Or.inl rfl⟩
  | succ count ih =>
    cases bytes with
    | nil =>
      refine ⟨[], [], rfl, trivial, Or.inr ⟨Nat.succ_pos count, ?_, rfl⟩⟩
      exact fun longer hlonger _ => hlonger.length_le
    | cons byte bytes =>
      by_cases hbyte : least ≤ byte.toNat ∧ byte.toNat ≤ greatest
      · obtain ⟨tail, rest, hbytes, htail, hread⟩ :=
          ih 0x80 0xBF (bits * 64 + byte.toNat % 64) bytes
        refine ⟨byte :: tail, rest, congrArg (byte :: ·) hbytes, ⟨hbyte, htail⟩, ?_⟩
        rcases hread with hlength | ⟨hlength, hlongest, hread⟩
        · exact Or.inl (congrArg (· + 1) hlength)
        · refine Or.inr ⟨Nat.succ_lt_succ hlength, ?_, ?_⟩
          · intro longer hlonger hfollows
            cases longer with
            | nil => exact Nat.zero_le _
            | cons next longer =>
              rw [List.cons_prefix_cons] at hlonger
              exact Nat.succ_le_succ (hlongest longer hlonger.2 hfollows.2)
          · rw [completeChar, if_pos hbyte, hread]
      · refine ⟨[], byte :: bytes, rfl, trivial, Or.inr ⟨Nat.succ_pos count, ?_, ?_⟩⟩
        · intro longer hlonger hfollows
          cases longer with
          | nil => exact Nat.le_refl 0
          | cons next longer =>
            rw [List.cons_prefix_cons] at hlonger
            exact absurd (hlonger.1 ▸ hfollows.1) hbyte
        · rw [completeChar, if_neg hbyte]

theorem completeChar_of_follows {least greatest : Nat} {tail : List UInt8}
    (h : Follows least greatest tail) (bits : Nat) (rest : List UInt8) :
    completeChar least greatest bits tail.length (tail ++ rest) =
      (some (numberOf bits tail), rest) := by
  induction tail generalizing least greatest bits with
  | nil => rfl
  | cons byte tail ih =>
    rw [List.length_cons, List.cons_append, completeChar, if_pos h.1, ih h.2]
    rfl

theorem decodeLossy_utf8EncodeChar (char : Char) (rest : List UInt8) :
    decodeLossy (String.utf8EncodeChar char ++ rest) = char :: decodeLossy rest := by
  obtain ⟨byte, lead, tail, hbytes, hlead, hfollows, hcount, hnumber⟩ := exists_follows_of_char char
  rw [hbytes, List.cons_append, decodeLossy]
  simp only [hlead, ← hcount, completeChar_of_follows hfollows, hnumber, Option.map_some,
    Char.ofNat_toNat, Option.getD_some]

/-- Bytes that start no character are damaged each for itself. -/
theorem isDamage_singleton {byte : UInt8} (h : Lead.ofByte? byte = none) (bytes : List UInt8) :
    IsDamage [byte] bytes := by
  have hstarts {tail : List UInt8} : ¬ StartsChar (byte :: tail) := by
    intro hstarts
    obtain ⟨lead, hlead, -⟩ := startsChar_cons_iff.mp hstarts
    rw [h] at hlead
    cases hlead
  have hnil {start : List UInt8} (hopens : start <+: [byte] ++ bytes) (hstart : StartsChar start) :
      start = [] := by
    rcases List.prefix_cons_iff.mp hopens with rfl | ⟨tail, rfl, -⟩
    · rfl
    · exact absurd hstart hstarts
  refine ⟨List.cons_ne_nil byte [], Or.inr rfl, ?_, ?_⟩
  · intro char hopens
    exact String.utf8EncodeChar_ne_nil (hnil hopens (startsChar_utf8EncodeChar char))
  · intro start hopens hstart
    rw [hnil hopens hstart]
    exact Nat.zero_le _

/-- A first byte and all bytes that may follow it are damaged if they are too few. -/
theorem isDamage_of_follows {byte : UInt8} {tail : List UInt8} {lead : Lead}
    (hlead : Lead.ofByte? byte = some lead) (hfollows : Follows lead.least lead.greatest tail)
    (hcount : tail.length < lead.count)
    (hlongest : ∀ longer, longer <+: tail ++ rest → Follows lead.least lead.greatest longer →
      longer.length ≤ tail.length) : IsDamage (byte :: tail) rest := by
  refine ⟨List.cons_ne_nil byte tail,
    Or.inl (startsChar_cons_iff.mpr ⟨lead, hlead, hfollows, hcount.le⟩), ?_, ?_⟩
  · intro char hopens
    obtain ⟨first, lead', others, hbytes, hlead', hfollows', hcount', -⟩ :=
      exists_follows_of_char char
    rw [hbytes, List.cons_append, List.cons_prefix_cons] at hopens
    obtain ⟨rfl, hopens⟩ := hopens
    obtain rfl : lead' = lead := Option.some.inj (hlead'.symm.trans hlead)
    have hle := hlongest others hopens hfollows'
    omega
  · intro start hopens hstart
    rcases List.prefix_cons_iff.mp hopens with rfl | ⟨longer, rfl, hlonger⟩
    · exact Nat.zero_le _
    · obtain ⟨lead', hlead', hfollows', -⟩ := startsChar_cons_iff.mp hstart
      obtain rfl : lead' = lead := Option.some.inj (hlead'.symm.trans hlead)
      exact Nat.succ_le_succ (hlongest longer hlonger hfollows')

/-- Bytes start with those of a character or with a damaged part, which is read as one character. -/
theorem decodeLossy_cases (byte : UInt8) (bytes : List UInt8) :
    (∃ char rest, byte :: bytes = String.utf8EncodeChar char ++ rest) ∨
      ∃ part rest, byte :: bytes = part ++ rest ∧ IsDamage part rest ∧
        decodeLossy (byte :: bytes) = replacement :: decodeLossy rest := by
  cases hlead : Lead.ofByte? byte with
  | none =>
    refine Or.inr ⟨[byte], bytes, rfl, isDamage_singleton hlead bytes, ?_⟩
    rw [decodeLossy]
    simp only [hlead]
  | some lead =>
    obtain ⟨tail, rest, hbytes, hfollows, hread⟩ :=
      completeChar_cases lead.least lead.greatest lead.bits lead.count bytes
    rcases hread with hcount | ⟨hcount, hlongest, hread⟩
    · obtain ⟨char, hchar, -⟩ := exists_char_of_follows hlead hfollows hcount
      exact Or.inl ⟨char, rest, by rw [hchar, hbytes, List.cons_append]⟩
    · rw [hbytes] at hlongest
      refine Or.inr ⟨byte :: tail, rest, congrArg (byte :: ·) hbytes,
        isDamage_of_follows hlead hfollows hcount hlongest, ?_⟩
      rw [decodeLossy]
      simp only [hlead, hread, Option.map_none, Option.getD_none]

theorem decodeLossy_damage (h : IsDamage part rest) :
    decodeLossy (part ++ rest) = replacement :: decodeLossy rest := by
  cases part with
  | nil => exact absurd rfl h.ne_nil
  | cons byte part =>
    rcases decodeLossy_cases byte (part ++ rest) with
      ⟨char, others, hchar⟩ | ⟨other, others, heq, hother, hread⟩
    · exact absurd ⟨others, hchar.symm⟩ (h.no_char char)
    · obtain ⟨-, rfl⟩ := h.unique hother heq
      exact hread

theorem readsAs_decodeLossy (bytes : List UInt8) : ReadsAs bytes (decodeLossy bytes) := by
  -- what is left behind a character or a damaged part is shorter
  induction hlength : bytes.length using Nat.strong_induction_on generalizing bytes with
  | _ length ih =>
    cases bytes with
    | nil =>
      rw [decodeLossy]
      exact .nil
    | cons byte bytes =>
      have hrest {part rest : List UInt8} (hpart : part ≠ [])
          (heq : byte :: bytes = part ++ rest) : ReadsAs rest (decodeLossy rest) := by
        refine ih rest.length ?_ rest rfl
        have hpos := List.length_pos_iff.mpr hpart
        rw [← hlength, heq, List.length_append]
        omega
      rcases decodeLossy_cases byte bytes with
        ⟨char, rest, heq⟩ | ⟨part, rest, heq, hpart, hread⟩
      · rw [heq, decodeLossy_utf8EncodeChar]
        exact .char char (hrest String.utf8EncodeChar_ne_nil heq)
      · rw [hread, heq]
        exact .damage hpart (hrest hpart.ne_nil heq)

/-- Bytes say one thing only, and this is what is read. -/
theorem readsAs_iff : ReadsAs bytes text ↔ text = decodeLossy bytes := by
  constructor
  · intro h
    induction h with
    | nil => rw [decodeLossy]
    | char char _ ih => rw [decodeLossy_utf8EncodeChar, ih]
    | damage hpart _ ih => rw [decodeLossy_damage hpart, ih]
  · rintro rfl
    exact readsAs_decodeLossy bytes

/-! ## Valid parts -/

section Valid

variable {front back : List UInt8} {before after : List Char} {first : UInt8} {lead : Lead}

/-- No start of a character goes on beyond a byte with which another one starts. -/
theorem StartsChar.prefix_of_lead {start : List UInt8} (h : StartsChar start) (hfront : front ≠ [])
    (hfirst : Lead.ofByte? first = some lead) (hopens : start <+: front ++ first :: back) :
    start <+: front := by
  by_cases hlength : start.length ≤ front.length
  · exact List.prefix_of_prefix_length_le hopens (List.prefix_append front _) hlength
  · have hwhole : front ++ [first] <+: front ++ first :: back :=
      (List.prefix_append_right_inj front).mpr ⟨back, rfl⟩
    obtain ⟨more, rfl⟩ := List.prefix_of_prefix_length_le hwhole hopens (by simp; omega)
    obtain ⟨byte, tail, rfl⟩ := List.exists_cons_of_ne_nil hfront
    simp only [List.cons_append] at h
    exact absurd (by simp) (h.not_mem_tail hfirst)

theorem IsDamage.append (h : IsDamage part rest) (hfirst : Lead.ofByte? first = some lead) :
    IsDamage part (rest ++ first :: back) := by
  have hwithin {start : List UInt8} (hstart : StartsChar start)
      (hopens : start <+: part ++ (rest ++ first :: back)) : start <+: part ++ rest := by
    rw [← List.append_assoc] at hopens
    exact hstart.prefix_of_lead (List.append_ne_nil_of_left_ne_nil h.ne_nil rest) hfirst hopens
  refine ⟨h.ne_nil, h.starts, ?_, ?_⟩
  · intro char hopens
    exact h.no_char char (hwithin (startsChar_utf8EncodeChar char) hopens)
  · intro start hopens hstart
    exact h.longest start (hwithin hstart hopens) hstart

/-- Where a character starts, the bytes before it and those from it on are read apart. -/
theorem ReadsAs.append (h : ReadsAs front before) (hfirst : Lead.ofByte? first = some lead)
    (hback : ReadsAs (first :: back) after) :
    ReadsAs (front ++ first :: back) (before ++ after) := by
  induction h with
  | nil => exact hback
  | char char _ ih =>
    rw [List.append_assoc, List.cons_append]
    exact .char char ih
  | damage hpart _ ih =>
    rw [List.append_assoc, List.cons_append]
    exact .damage (hpart.append hfirst) ih

theorem readsAs_encode_append (hback : ReadsAs back after) (text : List Char) :
    ReadsAs (encode text ++ back) (text ++ after) := by
  induction text with
  | nil => exact hback
  | cons char text ih =>
    rw [encode, List.flatMap_cons, List.append_assoc, List.cons_append]
    exact .char char ih

/-- A text whose bytes stand among others is read as this text, whatever stands around it. -/
theorem ReadsAs.append_encode (hfront : ReadsAs front before) (hback : ReadsAs back after)
    (htext : text ≠ []) :
    ReadsAs (front ++ encode text ++ back) (before ++ text ++ after) := by
  obtain ⟨char, chars, rfl⟩ := List.exists_cons_of_ne_nil htext
  obtain ⟨first, lead, tail, hbytes, hlead, -⟩ := exists_follows_of_char char
  have hencode : encode (char :: chars) ++ back = first :: (tail ++ (encode chars ++ back)) := by
    rw [encode, List.flatMap_cons, hbytes, encode, List.append_assoc, List.cons_append]
  have hread := readsAs_encode_append hback (char :: chars)
  rw [hencode] at hread
  rw [List.append_assoc, hencode, List.append_assoc]
  exact hfront.append hlead hread

end Valid

theorem decodeLossy_encode (text : List Char) : decodeLossy (encode text) = text := by
  have hread := readsAs_encode_append .nil text
  rw [List.append_nil, List.append_nil] at hread
  exact (readsAs_iff.mp hread).symm

end TreeShell.Text
