import PageLoom.Markdown.Inline
import PageLoom.Markdown.Line

/-!
# Blocks of Markdown

A document is a list of `Block`s.  It is read line by line.  The reader keeps the
containers that are open (`Frame`, innermost first) and the leaf that is open in
the innermost one (`Leaf`).  A line first continues the containers that it is
indented or marked for.  It then continues the open leaf, or closes what it does
not continue and starts new containers and a new leaf.  A line of plain text
continues a paragraph even if it does not continue the containers around it.
-/

namespace PageLoom.Markdown

/-- A block. -/
inductive Block
  | paragraph (text : List Char)
  | heading (level : Nat) (attrs : HeadingAttrs) (text : List Char)
  | rule
  | code (info : Option (List Char)) (text : List Char)
  | html (text : List Char)
  | table (columns : List Align) (head : List (List Char)) (rows : List (List (List Char)))
  | quote (children : List Block)
  | list (start : Option Nat) (tight : Bool) (items : List Block)
  | item (children : List Block)
  | footnote (label : List Char) (children : List Block)
deriving Inhabited

/-- A kind of container. -/
inductive FrameKind
  | document
  | quote
  | list (mark : Char) (start : Option Nat) (tight : Bool)
  /-- An item, its indentation, and whether nothing follows its marker. -/
  | item (indent : Nat) (bare : Bool)
  | footnote (label : List Char)

/-- An open container. -/
structure Frame where
  /-- What it is. -/
  kind : FrameKind
  /-- The blocks that it has so far, last first. -/
  children : List Block := []

/-- The open leaf. -/
inductive Leaf
  | none
  /-- Its lines, last first. -/
  | paragraph (lines : List (List Char))
  /-- The fence, its indentation, what follows it, and the text, last line first. -/
  | fenced (mark : Char) (length indent : Nat) (info : List Char) (lines : List (List Char))
  /-- The text and the blank lines after it, last line first. -/
  | indented (lines blanks : List (List Char))
  /-- The end and the text, last line first. -/
  | html (stop : HtmlEnd) (lines : List (List Char))
  /-- The columns, the head and the rows, last row first. -/
  | table (columns : List Align) (head : List (List Char)) (rows : List (List (List Char)))

/-- The state of the reader. -/
structure Reader where
  /-- The open containers, innermost first. -/
  frames : List Frame := [⟨.document, []⟩]
  /-- The open leaf. -/
  leaf : Leaf := .none
  /-- Whether the last line was blank. -/
  blank : Bool := false
  /-- The labels defined so far. -/
  labels : Labels := {}

/-- A container that is closed. -/
def Frame.block (f : Frame) : Block :=
  let children := f.children.reverse
  match f.kind with
  | .document => .quote children
  | .quote => .quote children
  | .list _ start tight => .list start tight children
  | .item .. => .item children
  | .footnote label => .footnote label children

/-- Make a list loose. -/
def Frame.loosen (f : Frame) : Frame :=
  match f.kind with
  | .list mark start _ => { f with kind := .list mark start false }
  | _ => f

namespace Reader

/-! ## Closing -/

/-- Add a block to the innermost container. -/
def add (r : Reader) (b : Block) : Reader :=
  match r.frames with
  | [] => r
  | f :: fs => { r with frames := { f with children := b :: f.children } :: fs }

/-- A text without gaps at its end. -/
def dropGapRight (cs : List Char) : List Char := (cs.reverse.dropWhile isGap).reverse

/-- Take the link definitions off the start of a paragraph. -/
def takeDefinitions (labels : Labels) : Nat → List Char → Labels × List Char
  | 0, cs => (labels, cs)
  | fuel + 1, cs =>
      match cs with
      | '[' :: rest =>
          match scanDefinition? rest with
          | some ((label, target), rest) =>
              takeDefinitions { labels with links := labels.links ++ [(labelKey label, target)] }
                fuel (rest.dropWhile isGapInLine)
          | none => (labels, cs)
      | _ => (labels, cs)

/-- Lines, last first, as one text. -/
def joinLines (lines : List (List Char)) : List Char :=
  (lines.reverse.intersperse ['\n']).flatten

/-- The definitions and the text of a paragraph. -/
def splitParagraph (labels : Labels) (lines : List (List Char)) : Labels × List Char :=
  let text := joinLines lines
  takeDefinitions labels text.length text

/-- Close the open leaf. -/
def closeLeaf (r : Reader) : Reader :=
  let done := { r with leaf := .none }
  match r.leaf with
  | .none => done
  | .paragraph lines =>
      let (labels, text) := splitParagraph r.labels lines
      let text := dropGapRight text
      let done := { done with labels := labels }
      if text.isEmpty then done else done.add (.paragraph text)
  | .fenced _ _ _ info lines => done.add (.code (some info) lines.reverse.flatten)
  | .indented lines _ => done.add (.code none lines.reverse.flatten)
  | .html _ lines => done.add (.html lines.reverse.flatten)
  | .table columns head rows => done.add (.table columns head rows.reverse)

/-- Close the innermost container and the leaf in it. -/
def closeFrame (r : Reader) : Reader :=
  let r := r.closeLeaf
  match r.frames with
  | f :: g :: fs => { r with frames := { g with children := f.block :: g.children } :: fs }
  | _ => r

/-- Close a number of containers. -/
def closeFrames (r : Reader) : Nat → Reader
  | 0 => r
  | n + 1 => closeFrames r.closeFrame n

/-- Close the list that is innermost, if one is.  A block that follows a blank
line in an item makes the list of the item loose. -/
def finishList (r : Reader) : Reader :=
  let r :=
    match r.frames with
    | ⟨.list .., _⟩ :: _ => r.closeFrame
    | _ => r
  if r.blank then
    let frames := match r.frames with | f :: g :: fs => f :: Frame.loosen g :: fs | fs => fs
    { r with frames := frames, blank := false }
  else r

/-- Close the footnote that is innermost, if one is. -/
def leaveFootnote (r : Reader) : Reader :=
  match r.frames with
  | ⟨.footnote _, _⟩ :: _ => r.closeFrame
  | _ => r

/-- Open a container. -/
def enter (r : Reader) (kind : FrameKind) : Reader := { r with frames := ⟨kind, []⟩ :: r.frames }

/-- Open an item, and its list unless it is open already. -/
def openItem (r : Reader) (m : Marker) : Reader :=
  let item : FrameKind := .item m.indent m.after.isBlank
  let fresh (r : Reader) : Reader :=
    (({ r.finishList with blank := false }).enter (.list m.mark m.number true)).enter item
  match r.frames with
  | ⟨.list mark _ _, _⟩ :: _ =>
      if mark == m.mark then
        let frames :=
          match r.frames with
          | f :: fs => if r.blank then Frame.loosen f :: fs else f :: fs
          | [] => []
        ({ r with frames := frames, blank := false }).enter item
      else fresh r
  | _ => fresh r

/-! ## Containers of a line -/

/-- Continue containers, outermost first: how many are not continued, and the
place after what marks the others. -/
def matchFrames (c : Cursor) : List Frame → Nat × Cursor
  | [] => (0, c)
  | f :: fs =>
      let stop : Nat × Cursor := (fs.length + 1, c)
      match f.kind with
      | .document => matchFrames c fs
      | .list .. => matchFrames c fs
      | .quote =>
          let (_, d) := c.skipUpTo 3
          match d.rest with
          | '>' :: _ => matchFrames (d.next.skip 1).2 fs
          | _ => stop
      | .item indent _ =>
          let (left, d) := c.skip indent
          if left = 0 || d.rest.isEmpty then matchFrames d fs else stop
      | .footnote _ =>
          let (left, d) := c.skip 4
          if left = 0 || d.rest.isEmpty then matchFrames d fs else stop

/-- Open the containers that start at a place. -/
def openFrames (r : Reader) (c : Cursor) : Nat → Reader × Cursor
  | 0 => (r, c)
  | fuel + 1 =>
      match c.skipUpTo 4 with
      | (4, _) => (r, c)
      | (indent, d) =>
          match scanFootnote? d.rest with
          | some (label, rest) =>
              let labels := { r.labels with footnotes := r.labels.footnotes ++ [labelKey label] }
              let r := { r.finishList.leaveFootnote with labels := labels }
              openFrames (r.enter (.footnote label)) ⟨rest.dropWhile isGapInLine, 0, 0⟩ fuel
          | none =>
              match scanMarker? indent d with
              | some m =>
                  let r := r.openItem m
                  if m.after.isBlank then (r, m.after) else openFrames r m.after fuel
              | none =>
                  match d.rest with
                  | '>' :: _ =>
                      openFrames (r.finishList.enter .quote) (d.next.skip 1).2 fuel
                  | _ => (r, c)

/-! ## Starting a leaf -/

/-- The text of a line of code. -/
def codeLine (cs : List Char) (ended : Bool) : List Char := if ended then cs ++ ['\n'] else cs

/-- A blank line in the innermost container. -/
def blankLine (r : Reader) : Reader :=
  match r.frames with
  | ⟨.quote, _⟩ :: _ => r
  | ⟨.item _ true, []⟩ :: _ => { r.closeFrame with blank := true }
  | _ => { r with blank := true }

/-- Start a block of raw HTML with its first line. -/
def startHtml (r : Reader) (stop : HtmlEnd) (text : List Char) : Reader :=
  let r := { r with leaf := .html stop [text] }
  match stop with
  | .word w => if (cutAt? w text).isSome then r.closeLeaf else r
  | .blank => r

/-- Start a leaf at a place that is not blank. -/
def startLeaf (r : Reader) (c : Cursor) (ended : Bool) : Reader :=
  let r := r.finishList
  match c.skipUpTo 4 with
  | (4, d) => { r with leaf := .indented [codeLine d.remainder ended] [] }
  | (indent, d) =>
      let cs := d.rest
      match htmlStart? cs with
      | some stop => r.startHtml stop (List.replicate indent ' ' ++ codeLine cs ended)
      | none =>
          if isRule cs then r.add .rule
          else
            match scanHeading? cs with
            | some (level, text) =>
                let (text, attrs) := splitAttrs (text.dropWhile isGapInLine)
                r.add (.heading level attrs (dropClosingMarks text))
            | none =>
                match scanFence? cs with
                | some (mark, length, info) =>
                    let info := unescape (dropGapRight (info.dropWhile isGapInLine))
                    { r with leaf := .fenced mark length indent info [] }
                | none => { r with leaf := .paragraph [cs] }

/-- Read what a line holds after the containers that it continues. -/
def startBlocks (r : Reader) (c : Cursor) (ended : Bool) : Reader :=
  let depth := r.frames.length
  let (r, c) := r.openFrames c (c.rest.length + 1)
  if !c.isBlank then r.startLeaf c ended
  else
    match decide (r.frames.length = depth), r.frames with
    | false, ⟨.item _ true, _⟩ :: _ => r
    | _, _ => r.blankLine

/-! ## Continuing a leaf -/

/-- Whether the lines of a paragraph, last first, hold definitions and nothing
else. -/
def onlyDefinitions (lines : List (List Char)) : Bool := (splitParagraph {} lines).2.isEmpty

/-- Whether a line may be the title of a definition. -/
def mayBeTitle (cs : List Char) : Bool :=
  match cs.head? with
  | some c => c == '"' || c == '\'' || c == '('
  | none => false

/-- Make a table of the last line of a paragraph and the line under it. -/
def startTable? (r : Reader) (lines : List (List Char)) (cs : List Char) : Option Reader :=
  match lines with
  | [] => none
  | head :: before =>
      match tableColumns? head cs with
      | none => none
      | some columns =>
          let table : Leaf := .table columns (cells columns.length head) []
          if before.isEmpty then some { r with leaf := table }
          else if head.head? = some '|' then
            some { ({ r with leaf := .paragraph before }).closeLeaf with leaf := table }
          else none

/-- Continue a paragraph.  `inside` tells whether the line continues all
containers; `fallback` reads the line as something new. -/
def continueParagraph (r : Reader) (lines : List (List Char)) (inside : Bool) (c : Cursor)
    (fallback : Reader) : Reader :=
  let rest := c.rest.dropWhile isGapInLine
  let more : Reader := { r with leaf := .paragraph (rest :: lines) }
  if onlyDefinitions lines && !(inside && mayBeTitle rest) then fallback
  else
    match c.skipUpTo 4 with
    | (4, _) => if rest.isEmpty then fallback else more
    | (_, d) =>
        let table := if inside then r.startTable? lines d.rest else none
        match table with
        | some r => r
        | none =>
            match if inside then scanUnderline? d.rest else none with
            | some level =>
                let (labels, text) := splitParagraph r.labels lines
                if text.isEmpty then fallback
                else
                  let (text, attrs) := splitAttrs text
                  ({ r with leaf := .none, labels := labels }).add
                    (.heading level attrs (dropGapRight text))
            | none => if interrupts inside false d.rest || rest.isEmpty then fallback else more

/-- Read a line. -/
def line (r : Reader) (l : Line) : Reader :=
  let (left, c) := matchFrames ⟨l.cs, 0, 0⟩ r.frames.reverse
  let inside := left = 0
  let fallback : Reader := (r.closeFrames left).closeLeaf.startBlocks c l.ended
  match r.leaf with
  | .none => fallback
  | .paragraph lines => r.continueParagraph lines inside c fallback
  | .fenced mark length indent info lines =>
      if !inside then fallback
      else
        let (_, d) := c.skipUpTo indent
        let closes :=
          match d.skipUpTo (4 - indent) with
          | (n, e) => n < 4 - indent && closesFence mark length e.rest
        if closes then r.closeLeaf
        else
          { r with leaf := .fenced mark length indent info (codeLine d.remainder l.ended :: lines) }
  | .indented lines blanks =>
      if !inside then fallback
      else
        let (short, d) := c.skip 4
        if short = 0 || d.rest.isEmpty then
          let text := codeLine d.remainder l.ended
          if c.isBlank then { r with leaf := .indented lines (text :: blanks), blank := true }
          else { r with leaf := .indented (text :: (blanks ++ lines)) [], blank := false }
        else fallback
  | .html stop lines =>
      if !inside then fallback
      else
        let text := codeLine c.remainder l.ended
        match stop with
        | .blank =>
            if c.isBlank then fallback else { r with leaf := .html stop (text :: lines) }
        | .word w =>
            let r := { r with leaf := .html stop (text :: lines) }
            if (cutAt? w text).isSome then r.closeLeaf else r
  | .table columns head rows =>
      let rest := c.rest.dropWhile isGapInLine
      if !inside || interrupts true true rest || (writtenCells rest).isEmpty then fallback
      else { r with leaf := .table columns head (cells columns.length rest :: rows) }

end Reader

/-- The blocks of a document and the labels that it defines. -/
def readBlocks (cs : List Char) : List Block × Labels :=
  let r := (splitLines cs).foldl Reader.line {}
  let r := (r.closeFrames (r.frames.length - 1)).closeLeaf
  match r.frames with
  | f :: _ => (f.children.reverse, r.labels)
  | [] => ([], r.labels)

end PageLoom.Markdown
