import PageLoom.Text.Bytes
import Mathlib.Data.List.Infix

/-!
# Texts as bytes

A text is stored as the bytes of its characters in UTF-8.  The first byte of a character does not
look like the others (`exists_utf8EncodeChar`), so the bytes tell which offsets lie between two
characters: they are the lengths of the beginnings of the text (`isBoundary_utf8_iff`).  The bytes
of two texts are in the order of the texts (`utf8_lt_utf8`).
-/

namespace PageLoom

/-- The bytes of a text. -/
def utf8 (cs : List Char) : List UInt8 := cs.flatMap String.utf8EncodeChar

/-! ## Lengths -/

theorem utf8_cons (c : Char) (cs : List Char) :
    utf8 (c :: cs) = String.utf8EncodeChar c ++ utf8 cs := rfl

/-- The encoding of a text is that of its parts, one after the other. -/
theorem utf8_append (cs ds : List Char) : utf8 (cs ++ ds) = utf8 cs ++ utf8 ds :=
  List.flatMap_append

/-- The bytes of a string are the encodings of its characters in turn. -/
theorem toList_toUTF8 (s : String) : s.toUTF8.data.toList = utf8 s.toList := by
  have h : (String.ofList s.toList).toUTF8.data.toList = utf8 s.toList := by
    rw [String.toUTF8, String.toByteArray_ofList, List.utf8Encode, List.toList_data_toByteArray,
      utf8]
  rwa [String.ofList_toList] at h

/-- The length in bytes is counted character by character. -/
theorem length_utf8 (cs : List Char) : (utf8 cs).length = byteLength cs := by
  induction cs with
  | nil => rfl
  | cons c cs ih =>
      rw [utf8_cons, List.length_append, String.length_utf8EncodeChar, ih, byteLength]

theorem utf8ByteSize_ofList (cs : List Char) : (String.ofList cs).utf8ByteSize = byteLength cs := by
  induction cs with
  | nil => rfl
  | cons c cs ih =>
      have hcons : String.ofList (c :: cs) = String.singleton c ++ String.ofList cs := by
        rw [String.singleton_eq_ofList, ← String.ofList_append]
        rfl
      rw [hcons, String.utf8ByteSize_append, String.utf8ByteSize_singleton, ih, byteLength]

theorem byteLength_toList (s : String) : byteLength s.toList = s.utf8ByteSize := by
  rw [← utf8ByteSize_ofList, String.ofList_toList]

/-! ## The bytes of a character -/

/-- Whether a byte is one of a character, but not the first. -/
def continues (b : UInt8) : Bool := 0x80 ≤ b && b < 0xC0

theorem continues_ofNat {n : Nat} (h : n < 256) :
    continues (UInt8.ofNat n) = true ↔ 128 ≤ n ∧ n < 192 := by
  rw [continues, Bool.and_eq_true, decide_eq_true_iff, decide_eq_true_iff, UInt8.le_iff_toNat_le,
    UInt8.lt_iff_toNat_lt, UInt8.toNat_ofNat', Nat.mod_eq_of_lt h]
  rfl

theorem char_toNat_lt (c : Char) : c.toNat < 0x110000 := by
  have h : c.toNat < 0xD800 ∨ 0xDFFF < c.toNat ∧ c.toNat < 0x110000 := c.valid
  omega

/-- The first byte of a character is not a continuation byte, and all others are. -/
theorem exists_utf8EncodeChar (c : Char) : ∃ first rest, String.utf8EncodeChar c = first :: rest ∧
    continues first = false ∧ ∀ b ∈ rest, continues b = true := by
  have hv : c.val.toNat < 0x110000 := char_toNat_lt c
  have hrest : ∀ ns : List Nat, ∀ b ∈ ns.map fun n => UInt8.ofNat (n % 64 + 128),
      continues b = true := by
    intro ns b hb
    obtain ⟨n, -, rfl⟩ := List.mem_map.mp hb
    exact (continues_ofNat (by omega)).mpr (by omega)
  have hfirst : ∀ n, n < 256 → n < 128 ∨ 192 ≤ n → continues (UInt8.ofNat n) = false := by
    intro n hn hout
    rw [← Bool.not_eq_true, continues_ofNat hn]
    omega
  rw [String.utf8EncodeChar]
  generalize c.val.toNat = v at hv ⊢
  -- The cases are the numbers of bytes.
  split
  next => exact ⟨_, _, rfl, hfirst _ (by omega) (by omega), hrest []⟩
  next =>
    split
    next => exact ⟨_, _, rfl, hfirst _ (by omega) (by omega), hrest [v]⟩
    next =>
      split
      next => exact ⟨_, _, rfl, hfirst _ (by omega) (by omega), hrest [v / 64, v]⟩
      next => exact ⟨_, _, rfl, hfirst _ (by omega) (by omega), hrest [v / 4096, v / 64, v]⟩

/-! ## Boundaries -/

/-- Whether a byte offset lies between two characters or at an end of a text. -/
def isBoundary (bytes : List UInt8) (i : Nat) : Bool :=
  match bytes[i]? with
  | some b => !continues b
  | none => i == bytes.length

theorem isBoundary_append_right (as bs : List UInt8) (i : Nat) :
    isBoundary (as ++ bs) (as.length + i) = isBoundary bs i := by
  rw [isBoundary, isBoundary, List.getElem?_append_right (Nat.le_add_right _ _),
    Nat.add_sub_cancel_left, List.length_append]
  split
  next => rfl
  next => simp

/-- A character starts at its first byte and at no other one. -/
theorem isBoundary_utf8_cons_of_lt {c : Char} {i : Nat} (h : i < c.utf8Size) (cs : List Char) :
    isBoundary (utf8 (c :: cs)) i = true ↔ i = 0 := by
  obtain ⟨first, rest, hc, hfirst, hrest⟩ := exists_utf8EncodeChar c
  rw [← String.length_utf8EncodeChar, hc, List.length_cons] at h
  rw [utf8_cons, hc, isBoundary]
  cases i with
  | zero => simp [hfirst]
  | succ i =>
      have hi : i < rest.length := Nat.lt_of_succ_lt_succ h
      rw [List.cons_append, List.getElem?_cons_succ, List.getElem?_append_left hi,
        List.getElem?_eq_getElem hi]
      simp [hrest rest[i] (List.getElem_mem hi)]

/-- The boundaries are the lengths of the beginnings of a text. -/
theorem isBoundary_utf8_iff {cs : List Char} {i : Nat} :
    isBoundary (utf8 cs) i = true ↔ ∃ p, p <+: cs ∧ byteLength p = i := by
  induction cs generalizing i with
  | nil =>
      constructor
      · intro h
        exact ⟨[], List.nil_prefix, (eq_of_beq h).symm⟩
      · rintro ⟨p, hp, rfl⟩
        rw [List.prefix_nil.mp hp]
        rfl
  | cons c cs ih =>
      rcases Nat.lt_or_ge i c.utf8Size with h | h
      · rw [isBoundary_utf8_cons_of_lt h]
        constructor
        · rintro rfl
          exact ⟨[], List.nil_prefix, rfl⟩
        · rintro ⟨p, hp, rfl⟩
          cases p with
          | nil => rfl
          | cons d p =>
              obtain ⟨rfl, -⟩ := List.cons_prefix_cons.mp hp
              rw [byteLength] at h
              omega
      · obtain ⟨k, rfl⟩ := Nat.exists_eq_add_of_le h
        rw [utf8_cons, ← String.length_utf8EncodeChar, isBoundary_append_right, ih,
          String.length_utf8EncodeChar]
        constructor
        · rintro ⟨p, hp, rfl⟩
          exact ⟨c :: p, List.cons_prefix_cons.mpr ⟨rfl, hp⟩, rfl⟩
        · rintro ⟨p, hp, hk⟩
          cases p with
          | nil =>
              have := c.utf8Size_pos
              rw [byteLength] at hk
              omega
          | cons d p =>
              obtain ⟨rfl, hrest⟩ := List.cons_prefix_cons.mp hp
              rw [byteLength] at hk
              exact ⟨p, hrest, Nat.add_left_cancel hk⟩

/-! ## The order of bytes -/

/-- Numbers compare by their six-bit digits, the form in which a code is spread over bytes. -/
theorem lt_iff_lt_digits (v w : Nat) :
    v < w ↔ v / 64 < w / 64 ∨ v / 64 = w / 64 ∧ v % 64 < w % 64 := by
  omega

/-- The bytes of a character are digits in base 64 after a mark that grows with their number. -/
theorem utf8EncodeChar_lt {c d : Char} (h : c < d) (as bs : List UInt8) :
    String.utf8EncodeChar c ++ as < String.utf8EncodeChar d ++ bs := by
  have hlt : c.val.toNat < d.val.toNat := h
  have hv : c.val.toNat < 0x110000 := char_toNat_lt c
  have hw : d.val.toNat < 0x110000 := char_toNat_lt d
  rw [String.utf8EncodeChar, String.utf8EncodeChar]
  generalize c.val.toNat = v at hlt hv ⊢
  generalize d.val.toNat = w at hlt hw ⊢
  have hdigits := hlt
  rw [lt_iff_lt_digits, lt_iff_lt_digits (v / 64), lt_iff_lt_digits (v / 64 / 64)] at hdigits
  simp only [Nat.div_div_eq_div_mul, Nat.reduceMul] at hdigits
  -- The cases are the numbers of bytes of both characters.
  split_ifs
  all_goals
    simp only [List.cons_append, List.nil_append, List.cons_lt_cons_iff, UInt8.lt_iff_toNat_lt,
      ← UInt8.toNat_inj, UInt8.toNat_ofNat']
    simp (disch := omega) only [Nat.mod_eq_of_lt]
    omega

/-- The order of texts by their characters is the order by their bytes. -/
theorem utf8_lt_utf8 {cs ds : List Char} (h : cs < ds) : utf8 cs < utf8 ds := by
  induction cs generalizing ds with
  | nil =>
      cases ds with
      | nil => exact absurd h (List.lt_irrefl [])
      | cons d ds =>
          obtain ⟨first, rest, hd, -, -⟩ := exists_utf8EncodeChar d
          rw [utf8_cons, hd]
          exact List.nil_lt_cons _ _
  | cons c cs ih =>
      cases ds with
      | nil => exact absurd h (List.not_lt_nil _)
      | cons d ds =>
          rcases List.cons_lt_cons_iff.mp h with hcd | ⟨rfl, hrest⟩
          · exact utf8EncodeChar_lt hcd _ _
          · exact List.append_left_lt (ih hrest)

end PageLoom
