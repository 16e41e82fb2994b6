import PageLoom.Log
import PageLoom.Proofs.Text.Utf8

/-!
# Truncation

A text is cut where it fits a number of bytes.  What is kept is the longest beginning that fits
(`prefix_takeBytes`).  To find its end one can step back from the limit, byte by byte, until a
character starts (`lastBoundary`).  There always is such a place, since the text itself starts at
one, and no later boundary is within the limit.  As the boundaries are the lengths of the
beginnings, both give the same text (`utf8_takeBytes`, `cutsLate_takeBytes`).

So the lines of the log are cut as late as possible and are never wider than the log
(`Note.utf8ByteSize_le_of_mem_lines`).
-/

namespace PageLoom

/-! ## Stepping back -/

/-- The first boundary that is met on the way back from a byte offset. -/
def lastBoundary (bytes : List UInt8) : Nat → Nat
  | 0 => 0
  | n + 1 => if isBoundary bytes (n + 1) then n + 1 else lastBoundary bytes n

/-- The bytes of a text up to the last boundary within a limit, or all if they fit. -/
def cutBack (limit : Nat) (bytes : List UInt8) : List UInt8 :=
  if bytes.length ≤ limit then bytes else bytes.take (lastBoundary bytes limit)

theorem lastBoundary_le (bytes : List UInt8) (n : Nat) : lastBoundary bytes n ≤ n := by
  induction n with
  | zero => exact Nat.le_refl 0
  | succ n ih =>
      rw [lastBoundary]
      split
      next => exact Nat.le_refl _
      next => exact Nat.le_succ_of_le ih

/-- Stepping back ends on a boundary at the latest at the beginning of the text. -/
theorem isBoundary_lastBoundary {bytes : List UInt8} (h : isBoundary bytes 0 = true) (n : Nat) :
    isBoundary bytes (lastBoundary bytes n) = true := by
  induction n with
  | zero => exact h
  | succ n ih =>
      rw [lastBoundary]
      split
      next hn => exact hn
      next => exact ih

/-- Stepping back never passes a boundary. -/
theorem le_lastBoundary {bytes : List UInt8} {i n : Nat} (h : isBoundary bytes i = true)
    (hle : i ≤ n) : i ≤ lastBoundary bytes n := by
  induction n with
  | zero => exact hle
  | succ n ih =>
      rw [lastBoundary]
      split
      next => exact hle
      next hn =>
        -- The offset itself is no boundary, so the boundary is before it.
        have hne : i ≠ n + 1 := by
          rintro rfl
          exact hn h
        exact ih (by omega)

/-! ## The longest beginning -/

theorem byteLength_le_of_prefix {p cs : List Char} (h : p <+: cs) :
    byteLength p ≤ byteLength cs := by
  obtain ⟨rest, rfl⟩ := h
  rw [byteLength_append]
  exact Nat.le_add_right _ _

/-- Every beginning of the text that fits in the limit is a beginning of what is kept. -/
theorem prefix_takeBytes {p cs : List Char} {limit : Nat} (h : p <+: cs)
    (hfits : byteLength p ≤ limit) : p <+: takeBytes limit cs := by
  induction cs generalizing p limit with
  | nil => exact h
  | cons c cs ih =>
      cases p with
      | nil => exact List.nil_prefix
      | cons d p =>
          obtain ⟨rfl, hrest⟩ := List.cons_prefix_cons.mp h
          rw [byteLength] at hfits
          rw [takeBytes, if_pos (by omega)]
          exact List.cons_prefix_cons.mpr ⟨rfl, ih hrest (by omega)⟩

/-- Keeping whole characters while they fit ends where stepping back over the bytes does. -/
theorem byteLength_takeBytes_eq (limit : Nat) (cs : List Char) :
    byteLength (takeBytes limit cs) = lastBoundary (utf8 cs) limit := by
  apply Nat.le_antisymm
  · have hboundary : isBoundary (utf8 cs) (byteLength (takeBytes limit cs)) = true :=
      isBoundary_utf8_iff.mpr ⟨_, takeBytes_prefix limit cs, rfl⟩
    exact le_lastBoundary hboundary (byteLength_takeBytes limit cs)
  · have hstart : isBoundary (utf8 cs) 0 = true :=
      isBoundary_utf8_iff.mpr ⟨[], List.nil_prefix, rfl⟩
    obtain ⟨p, hp, hlength⟩ := isBoundary_utf8_iff.mp (isBoundary_lastBoundary hstart limit)
    have hfits : byteLength p ≤ limit := by
      rw [hlength]
      exact lastBoundary_le _ limit
    rw [← hlength]
    exact byteLength_le_of_prefix (prefix_takeBytes hp hfits)

/-- The longest beginning ends where stepping back ends. -/
theorem utf8_takeBytes (limit : Nat) (cs : List Char) :
    utf8 (takeBytes limit cs) = cutBack limit (utf8 cs) := by
  rw [cutBack, length_utf8]
  split
  next hfits => rw [takeBytes_eq_self hfits]
  next =>
    obtain ⟨rest, hrest⟩ := takeBytes_prefix limit cs
    have hbytes : utf8 cs = utf8 (takeBytes limit cs) ++ utf8 rest := by
      rw [← utf8_append, hrest]
    rw [← byteLength_takeBytes_eq, ← length_utf8, hbytes, List.take_left]

/-- What is kept of a text that is cut. -/
structure CutsLate (s : String) (limit : Nat) (kept : String) : Prop where
  /-- Whole characters from the start of the text. -/
  beginning : kept.toList <+: s.toList
  fits : kept.utf8ByteSize ≤ limit
  /-- Every beginning that fits is a part of what is kept. -/
  longest : ∀ p : String, p.toList <+: s.toList → p.utf8ByteSize ≤ limit → p.toList <+: kept.toList
  /-- All of the text, if it fits. -/
  whole : s.utf8ByteSize ≤ limit → kept = s
  /-- The bytes tell where characters start. -/
  boundary : ∀ i, isBoundary s.toUTF8.data.toList i = true ↔
    ∃ p : String, p.toList <+: s.toList ∧ p.utf8ByteSize = i
  /-- Stepping back from the limit ends where a character starts or the text ends. -/
  ends : isBoundary s.toUTF8.data.toList (lastBoundary s.toUTF8.data.toList limit) = true
  /-- It cuts the bytes of the text to those that are kept. -/
  bytes : kept.toUTF8.data.toList = cutBack limit s.toUTF8.data.toList

/-- The text is cut as late as the limit allows without a character being split. -/
theorem cutsLate_takeBytes (s : String) (limit : Nat) :
    CutsLate s limit (String.ofList (takeBytes limit s.toList)) := by
  have hboundary : ∀ i, isBoundary s.toUTF8.data.toList i = true ↔
      ∃ p : String, p.toList <+: s.toList ∧ p.utf8ByteSize = i := by
    intro i
    rw [toList_toUTF8, isBoundary_utf8_iff]
    constructor
    · rintro ⟨p, hp, rfl⟩
      exact ⟨String.ofList p, by rwa [String.toList_ofList], utf8ByteSize_ofList p⟩
    · rintro ⟨p, hp, rfl⟩
      exact ⟨p.toList, hp, byteLength_toList p⟩
  constructor
  case beginning =>
    rw [String.toList_ofList]
    exact takeBytes_prefix limit s.toList
  case fits =>
    rw [utf8ByteSize_ofList]
    exact byteLength_takeBytes limit s.toList
  case longest =>
    intro p hp hfits
    rw [String.toList_ofList]
    rw [← byteLength_toList] at hfits
    exact prefix_takeBytes hp hfits
  case whole =>
    intro hfits
    rw [← byteLength_toList] at hfits
    rw [takeBytes_eq_self hfits, String.ofList_toList]
  case boundary => exact hboundary
  case ends =>
    have hstart : ("" : String).toList <+: s.toList := List.nil_prefix
    exact isBoundary_lastBoundary ((hboundary 0).mpr ⟨"", hstart, rfl⟩) limit
  case bytes => rw [toList_toUTF8, toList_toUTF8, String.toList_ofList, utf8_takeBytes]

/-! ## The log -/

/-- No line is wider than the log, unless the topic alone is. -/
theorem Note.utf8ByteSize_le_of_mem_lines {n : Note} (h : byteLength n.topic.toList + 3 ≤ logWidth)
    {line : String} (hline : line ∈ n.lines) : line.utf8ByteSize ≤ logWidth := by
  obtain ⟨cs, -, rfl⟩ := List.mem_map.mp hline
  have hcut := byteLength_takeBytes n.room cs
  rw [String.utf8ByteSize_append, String.utf8ByteSize_append, String.utf8ByteSize_append,
    utf8ByteSize_ofList (takeBytes n.room cs), ← byteLength_toList n.topic]
  have hroom : n.room = logWidth - (byteLength n.topic.toList + 3) := rfl
  have hopen : "[".utf8ByteSize = 1 := rfl
  have hclose : "] ".utf8ByteSize = 2 := rfl
  omega

end PageLoom
