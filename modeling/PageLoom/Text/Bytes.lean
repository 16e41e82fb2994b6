/-!
# Texts measured in bytes

Offsets, spans and cuts are counted in the bytes of UTF-8.  `byteLength` is the
length of a text in bytes.  `takeBytes` is the longest beginning of a text that
fits a number of bytes: it never splits a character.
-/

namespace PageLoom

/-- The number of bytes of UTF-8. -/
def byteLength : List Char → Nat
  | [] => 0
  | c :: cs => c.utf8Size + byteLength cs

/-- The longest beginning of at most `limit` bytes. -/
def takeBytes (limit : Nat) : List Char → List Char
  | [] => []
  | c :: cs => if c.utf8Size ≤ limit then c :: takeBytes (limit - c.utf8Size) cs else []

theorem byteLength_append (as bs : List Char) :
    byteLength (as ++ bs) = byteLength as + byteLength bs := by
  induction as with
  | nil => simp [byteLength]
  | cons a as ih => simp [byteLength, ih, Nat.add_assoc]

theorem byteLength_takeBytes (limit : Nat) (cs : List Char) :
    byteLength (takeBytes limit cs) ≤ limit := by
  induction cs generalizing limit with
  | nil => simp [takeBytes, byteLength]
  | cons c cs ih =>
      by_cases h : c.utf8Size ≤ limit
      · have := ih (limit - c.utf8Size)
        simp only [takeBytes, if_pos h, byteLength]
        omega
      · simp [takeBytes, h, byteLength]

theorem takeBytes_prefix (limit : Nat) (cs : List Char) : takeBytes limit cs <+: cs := by
  induction cs generalizing limit with
  | nil => exact List.prefix_refl _
  | cons c cs ih =>
      by_cases h : c.utf8Size ≤ limit
      · simp only [takeBytes, if_pos h]
        exact List.cons_prefix_cons.mpr ⟨rfl, ih _⟩
      · simp [takeBytes, h]

/-- A text that fits is kept whole. -/
theorem takeBytes_eq_self {limit : Nat} {cs : List Char} (h : byteLength cs ≤ limit) :
    takeBytes limit cs = cs := by
  induction cs generalizing limit with
  | nil => rfl
  | cons c cs ih =>
      simp only [byteLength] at h
      simp only [takeBytes, if_pos (show c.utf8Size ≤ limit by omega)]
      rw [ih (by omega)]

example : takeBytes 4 "aé日".toList = "aé".toList := by decide

end PageLoom
