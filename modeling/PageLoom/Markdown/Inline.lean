import PageLoom.Markdown.Scan
import PageLoom.Text.Blank

/-!
# Inline Markdown

The text of a paragraph, heading or cell is a list of `Inline`s.  It is read
from left to right into nodes: finished inlines, runs of emphasis marks, and
opening brackets that may yet start a link.  A closing bracket looks back for the
last opening bracket and forward for an address or a label.  What stands between
the brackets of a link, and in the end the whole text, has its runs of marks
paired up by `pairMarks`.
-/

namespace PageLoom.Markdown

/-- A piece of formatted text. -/
inductive Inline
  | text (cs : List Char)
  | code (cs : List Char)
  | html (cs : List Char)
  | softBreak
  | hardBreak
  | emphasis (children : List Inline)
  | strong (children : List Inline)
  | strike (children : List Inline)
  | link (target : LinkTarget) (children : List Inline)
  | image (target : LinkTarget) (children : List Inline)
  | footnote (label : List Char)
deriving Inhabited

/-- What the labels of a document stand for. -/
structure Labels where
  /-- The defined links, the first of each label first. -/
  links : List (List Char × LinkTarget) := []
  /-- The defined footnotes. -/
  footnotes : List (List Char) := []

/-- The link of a label. -/
def Labels.link? (l : Labels) (label : List Char) : Option LinkTarget :=
  (l.links.find? fun d => d.1 == labelKey label).map (·.2)

/-- Whether a label has a footnote. -/
def Labels.hasFootnote (l : Labels) (label : List Char) : Bool :=
  l.footnotes.contains (labelKey label)

/-- A node of a text that is being read. -/
inductive Node
  /-- A finished inline. -/
  | inline (i : Inline)
  /-- A run of marks: how many are left, how many there were, and whether it may
  open and close. -/
  | run (mark : Char) (count length : Nat) (opens closes : Bool)
  /-- An opening bracket, the text after it, and whether a link may start here. -/
  | bracket (image active : Bool) (after : List Char)

/-! ## Pairing marks -/

/-- An open run and what stands after it, last first. -/
structure OpenRun where
  /-- The mark. -/
  mark : Char
  /-- How many marks are left. -/
  count : Nat
  /-- How many marks the run had. -/
  length : Nat
  /-- Whether the run could also close. -/
  both : Bool
  /-- What stands after it. -/
  content : List Inline

/-- The open runs, innermost first, and what stands before the first of them. -/
structure Pairing where
  /-- The open runs. -/
  runs : List OpenRun
  /-- What stands before them, last first. -/
  base : List Inline

/-- Marks that turn out to be text. -/
def marksText (mark : Char) (count : Nat) : Inline := .text (List.replicate count mark)

/-- Add inlines, last first, after everything. -/
def Pairing.add (p : Pairing) (is : List Inline) : Pairing :=
  match p.runs with
  | [] => { p with base := is ++ p.base }
  | r :: rs => { p with runs := { r with content := is ++ r.content } :: rs }

/-- Whether a run that closes and a run that opens belong together. -/
def marksMatch (mark : Char) (length : Nat) (both : Bool) (r : OpenRun) : Bool :=
  r.mark == mark &&
    (if mark == '~' then r.length == length
     else (!both && !r.both) || (length + r.length) % 3 != 0 || length % 3 == 0)

/-- The innermost run that belongs to a closing run; the runs inside it become
text.  The result is that run and the runs around it. -/
def findOpen? (mark : Char) (length : Nat) (both : Bool) (inner : List Inline) :
    List OpenRun → Option (OpenRun × List OpenRun)
  | [] => none
  | r :: rs =>
      let content := inner ++ r.content
      if marksMatch mark length both r then some ({ r with content := content }, rs)
      else findOpen? mark length both (content ++ [marksText r.mark r.count]) rs

/-- Inlines inside a number of pairs of marks. -/
def wrapMarks (mark : Char) : Nat → List Inline → List Inline
  | 0, is => is
  | 1, is => if mark == '~' then [.strike is] else [.emphasis is]
  | n + 2, is => if mark == '~' then [.strike is] else wrapMarks mark n [.strong is]

/-- Let a run close as many open runs as it can.  Every pairing uses up at least
one of its marks. -/
def closeRun (mark : Char) (length : Nat) (both : Bool) (p : Pairing) : Nat → Nat → Pairing × Nat
  | 0, count => (p, count)
  | _, 0 => (p, 0)
  | fuel + 1, count =>
      match findOpen? mark length both [] p.runs with
      | none => (p, count)
      | some (r, rs) =>
          let n := min count r.count
          let wrapped := wrapMarks mark n r.content.reverse
          let p : Pairing :=
            if n < r.count then
              { p with runs := { r with count := r.count - n, content := wrapped.reverse } :: rs }
            else Pairing.add { p with runs := rs } wrapped.reverse
          closeRun mark length both p fuel (count - n)

/-- Read one node. -/
def Pairing.step (p : Pairing) : Node → Pairing
  | .inline i => p.add [i]
  | .bracket image _ _ => p.add [.text (if image then ['!', '['] else ['['])]
  | .run mark count length opens closes =>
      let both := opens && closes
      let (p, left) := if closes then closeRun mark length both p count count else (p, count)
      if left = 0 then p
      else if opens then { p with runs := ⟨mark, left, length, both, []⟩ :: p.runs }
      else p.add [marksText mark left]

/-- Runs that stay open become text. -/
def flattenRuns (inner : List Inline) : List OpenRun → List Inline
  | [] => inner
  | r :: rs => flattenRuns (inner ++ r.content ++ [marksText r.mark r.count]) rs

/-- The inlines of a list of nodes. -/
def pairMarks (nodes : List Node) : List Inline :=
  let p := nodes.foldl Pairing.step ⟨[], []⟩
  (flattenRuns [] p.runs ++ p.base).reverse

/-! ## Runs of marks -/

/-- Whether a run may open: `before` and `after` are the characters around it. -/
def runOpens (mark : Char) (length : Nat) (before after : Option Char) : Bool :=
  match after with
  | none => false
  | some a =>
      if isBlank a then false
      else
        match before with
        | none => true
        | some b =>
            (mark == '*' && !isPunct a) || (mark == '~' && 1 < length) ||
              (mark == '~' && b == '~' && !isPunct a) || isBlank b || isPunct b

/-- Whether a run may close. -/
def runCloses (mark : Char) (length : Nat) (before after : Option Char) : Bool :=
  match before with
  | none => false
  | some b =>
      if isBlank b then false
      else
        match after with
        | none => true
        | some a =>
            ((mark == '*' || (mark == '~' && 1 < length)) && !isPunct b) ||
              (mark == '~' && b == '~') || isBlank a || isPunct a

/-! ## Code spans -/

/-- The text before a run of exactly `n` backquotes, and after it.  `seen` is
the number of backquotes just before. -/
def scanCodeEnd? (n : Nat) (seen : Nat) : Scanner (List Char)
  | [] => if seen = n then some ([], []) else none
  | c :: cs =>
      if c = '`' then (scanCodeEnd? n (seen + 1) cs).map fun (body, rest) => (c :: body, rest)
      else if seen = n then some ([], c :: cs)
      else (scanCodeEnd? n 0 cs).map fun (body, rest) => (c :: body, rest)

/-- The text of a code span.  Line ends become spaces.  One space is dropped at
both ends if both are there and something else is, too. -/
def codeText (cs : List Char) : List Char :=
  let cs := cs.map fun c => if c = '\n' then ' ' else c
  if cs.head? = some ' ' ∧ cs.getLast? = some ' ' ∧ cs.any (· != ' ') then (cs.drop 1).dropLast
  else cs

/-- The code span that `n` backquotes open. -/
def scanCode (n : Nat) : Scanner Inline := fun cs =>
  (scanCodeEnd? n 0 cs).map fun (body, rest) =>
    (.code (codeText (body.take (body.length - n))), rest)

/-! ## Brackets -/

/-- Keep links from starting at the brackets of a list of nodes. -/
def deactivate (images : Bool) : Node → Node
  | .bracket image active after => .bracket image (active && image && !images) after
  | n => n

/-- Split the nodes, last first, at the last opening bracket. -/
def splitBracket? : List Node → Option (List Node × (Bool × Bool × List Char) × List Node)
  | [] => none
  | .bracket image active after :: before => some ([], (image, active, after), before)
  | n :: nodes => (splitBracket? nodes).map fun (inner, b, before) => (n :: inner, b, before)

/-- What the brackets around `label` stand for, given the text after them: a
link and the text after it, or a footnote. -/
def resolveBracket (labels : Labels) (label after : List Char) :
    Option (LinkTarget × List Char) ⊕ List Char :=
  let own : Option (List Char) :=
    match scanLabel? (label ++ [']']) with
    | some (l, []) => some l
    | _ => none
  let byOwn (rest : List Char) : Option (LinkTarget × List Char) ⊕ List Char :=
    match own with
    | none => .inl none
    | some ('^' :: name) =>
        if !name.all isGap && labels.hasFootnote name then .inr name else .inl none
    | some l => .inl ((labels.link? l).map (·, rest))
  let byLabel : Option (LinkTarget × List Char) ⊕ List Char :=
    match after with
    | '[' :: ']' :: rest => byOwn rest
    | '[' :: '^' :: _ => byOwn after
    | '[' :: cs =>
        match scanLabel? cs with
        | some (l, rest) => .inl ((labels.link? l).map (·, rest))
        | none => byOwn after
    | _ => byOwn after
  match after with
  | '(' :: cs =>
      match scanLinkTail? cs with
      | some ((dest, title), rest) => .inl (some (⟨dest, title⟩, rest))
      | none => byLabel
  | _ => byLabel

/-- Read a closing bracket: the nodes before it, last first, and the text after
it.  The result is the nodes and the text that is left. -/
def closeBracket (labels : Labels) (nodes : List Node) (cs after : List Char) :
    List Node × List Char :=
  let plain (nodes : List Node) : List Node × List Char := (.inline (.text [']']) :: nodes, after)
  match splitBracket? nodes with
  | none => plain nodes
  | some (inner, (image, active, text), before) =>
      let opener : Node := .inline (.text (if image then ['!', '['] else ['[']))
      if !active then plain (inner ++ opener :: before)
      else
        match resolveBracket labels (text.take (text.length - cs.length)) after with
        | .inl none => plain (inner ++ opener :: before)
        | .inl (some (target, rest)) =>
            let children := pairMarks inner.reverse
            if image then (.inline (.image target children) :: before, rest)
            else (.inline (.link target children) :: before.map (deactivate false), rest)
        | .inr name =>
            let before := before.map (deactivate true)
            let before := if image then .inline (.text ['!']) :: before else before
            (.inline (.footnote name) :: before, after)

/-! ## Reading a text -/

/-- The characters that may start something other than text. -/
def isSpecial (c : Char) : Bool :=
  c == '\\' || c == '\n' || c == ' ' || c == '\t' || c == '`' || c == '<' || c == '&' ||
    c == '!' || c == '[' || c == ']' || c == '*' || c == '_' || c == '~'

/-- The inline that `<` starts. -/
def scanAngle? : Scanner Inline := fun cs =>
  match scanUri? cs with
  | some (uri, rest) => some (.link ⟨uri, []⟩ [.text uri], rest)
  | none =>
      match scanMail? cs with
      | some (mail, rest) => some (.link ⟨"mailto:".toList ++ mail, []⟩ [.text mail], rest)
      | none =>
          (afterMarkup? cs).map fun rest => (.html ('<' :: cs.take (cs.length - rest.length)), rest)

/-- The nodes of a text, last first.  `before` is the character before it.  Every
step reads at least one character. -/
def readNodes (labels : Labels) : Nat → List Node → Option Char → List Char → List Node
  | 0, nodes, _, _ => nodes
  | _, nodes, _, [] => nodes
  | fuel + 1, nodes, before, c :: cs =>
      let text (t : List Char) (last : Char) (rest : List Char) : List Node :=
        readNodes labels fuel (.inline (.text t) :: nodes) (some last) rest
      let node (n : Node) (last : Char) (rest : List Char) : List Node :=
        readNodes labels fuel (n :: nodes) (some last) rest
      if c = '\\' then
        match cs with
        | '\n' :: rest => node (.inline .hardBreak) '\n' rest
        | d :: rest => if isAsciiPunct d then text [d] d rest else text [c] c cs
        | [] => text [c] c cs
      else if isGapInLine c then
        let gap := cs.takeWhile isGapInLine
        match cs.dropWhile isGapInLine with
        | '\n' :: rest =>
            node (.inline (if gap.isEmpty then .softBreak else .hardBreak)) '\n' rest
        | [] => nodes
        | rest => text (c :: gap) c rest
      else if c = '\n' then node (.inline .softBreak) '\n' cs
      else if c = '`' then
        let marks := c :: cs.takeWhile (· == '`')
        let rest := cs.dropWhile (· == '`')
        match scanCode marks.length rest with
        | some (code, rest) => node (.inline code) '`' rest
        | none => text marks '`' rest
      else if c = '<' then
        match scanAngle? cs with
        | some (i, rest) => node (.inline i) '>' rest
        | none => text [c] c cs
      else if c = '&' then
        match scanCharRef? cs with
        | some (value, rest) => text value ';' rest
        | none => text [c] c cs
      else if c = '!' && cs.head? == some '[' then
        node (.bracket true true (cs.drop 1)) '[' (cs.drop 1)
      else if c = '[' then node (.bracket false true cs) '[' cs
      else if c = ']' then
        let (nodes, rest) := closeBracket labels nodes (c :: cs) cs
        readNodes labels fuel nodes (some ((c :: cs)[cs.length - rest.length]?.getD ']')) rest
      else if c = '*' || c = '_' || c = '~' then
        let length := 1 + (cs.takeWhile (· == c)).length
        let rest := cs.dropWhile (· == c)
        let opens := runOpens c length before rest.head?
        let closes := runCloses c length before rest.head?
        if (opens || closes) && (c != '~' || length ≤ 2) then
          node (.run c length length opens closes) c rest
        else text (List.replicate length c) c rest
      else
        let rest := cs.dropWhile fun d => !isSpecial d
        let body := c :: cs.take (cs.length - rest.length)
        text body (body.getLast?.getD c) rest

/-- The inlines of a text. -/
def readInlines (labels : Labels) (cs : List Char) : List Inline :=
  pairMarks (readNodes labels cs.length [] none cs).reverse

end PageLoom.Markdown
