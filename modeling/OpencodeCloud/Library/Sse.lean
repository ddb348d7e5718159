/-
# OpencodeCloud.Library.Sse -- streams of events as lines of text

An event stream is text: an event is the lines that begin with `data:` up to an empty line, and a line that
begins with a colon is a comment. Readers differ in what they take for the value of a line, in what counts
towards their limit, and in what they do with an event and with a comment (`Dialect`).

`read` is such a reader, on the lines of a stream. A writer that puts every event into one line is read back:
the reader does with the events and the comments, one after the other, what it does with them, up to the
first that is too long (`read_written`).
-/
import OpencodeCloud.Library.Text

namespace OpencodeCloud.Library.Sse

/-! ## §A Doing one thing after the other -/

section Consume

variable {α β : Type}

/-- Do something with each element until it fails, and say whether it never did. -/
def consume (f : α → Option (List β)) : List α → List β × Bool
  | [] => ([], true)
  | a :: as =>
    match f a with
    | none => ([], false)
    | some out => (out ++ (consume f as).1, (consume f as).2)

theorem consume_cons_some {f : α → Option (List β)} {a : α} {out : List β} (h : f a = some out) (as : List α) :
    consume f (a :: as) = (out ++ (consume f as).1, (consume f as).2) := by
  rw [consume, h]

theorem consume_cons_none {f : α → Option (List β)} {a : α} (h : f a = none) (as : List α) :
    consume f (a :: as) = ([], false) := by
  rw [consume, h]

end Consume

/-! ## §B Readers -/

/-- An event with the values of its lines, or a comment. -/
inductive Item where
  | event (data : List Text)
  | comment (line : Text)

/-- How a reader takes a line with data. -/
structure Dialect where
  /-- the value of the line -/
  value : Text → Text
  /-- what the line counts for -/
  size : Text → Nat
  limit : Nat

/-- `data:` -/
def dataPrefix : Text := "data:".toList

/-- `line.startswith("data:")` -/
def isData (line : Text) : Bool := dataPrefix.isPrefixOf line

section Read

variable {β : Type} (d : Dialect) (handle : Item → Option (List β))

/-- Read lines, with the data of the event so far and what it counts for. -/
def read : List Text → Nat → List Text → List β × Bool
  | _, _, [] => ([], true)
  | data, size, line :: lines =>
    if line.isEmpty then
      if data.isEmpty then read [] 0 lines
      else
        match handle (.event data) with
        | none => ([], false)
        | some out => (out ++ (read [] 0 lines).1, (read [] 0 lines).2)
    else if isData line then
      if size + d.size line > d.limit then ([], false)
      else read (data ++ [d.value line]) (size + d.size line) lines
    else if line.head? = some ':' then
      match handle (.comment line) with
      | none => ([], false)
      | some out => (out ++ (read data size lines).1, (read data size lines).2)
    else read data size lines

end Read

/-- What a reader returns comes from events, and from comments among the lines. -/
theorem read_forall {β : Type} {d : Dialect} {handle : Item → Option (List β)} {P : β → Prop}
    (hevent : ∀ data out, handle (.event data) = some out → ∀ b ∈ out, P b) {lines : List Text}
    (hcomment : ∀ line ∈ lines, line.head? = some ':' → ∀ out, handle (.comment line) = some out → ∀ b ∈ out, P b)
    (data : List Text) (size : Nat) : ∀ b ∈ (read d handle data size lines).1, P b := by
  induction lines generalizing data size with
  | nil => exact fun b hb => absurd hb List.not_mem_nil
  | cons line lines ih =>
    rw [List.forall_mem_cons] at hcomment
    have hrest := ih hcomment.2
    rw [read]
    split
    · split
      · exact hrest [] 0
      · split
        · exact fun b hb => absurd hb List.not_mem_nil
        · next out hout => exact List.forall_mem_append.2 ⟨hevent data out hout, hrest [] 0⟩
    · split
      · split
        · exact fun b hb => absurd hb List.not_mem_nil
        · exact hrest _ _
      · split
        · next hhead =>
          split
          · exact fun b hb => absurd hb List.not_mem_nil
          · next out hout => exact List.forall_mem_append.2 ⟨hcomment.1 hhead out hout, hrest data size⟩
        · exact hrest data size

/-! ## §C Writers -/

/-- What a writer puts into one line. -/
inductive Block where
  | event (text : Text)
  | comment (line : Text)

/-- The line of a block; an empty line comes behind it. -/
def Block.line : Block → Text
  | .event text => "data: ".toList ++ text
  | .comment line => line

/-- The text of a block. -/
def Block.text (b : Block) : Text := b.line ++ ['\n', '\n']

/-- A block that stands on one line, and a comment that begins like one. -/
def Block.Proper (b : Block) : Prop :=
  (∀ c ∈ b.line, isBoundary c = false) ∧ ∀ line, b = .comment line → line.head? = some ':'

/-- The lines of blocks. -/
def written (blocks : List Block) : List Text := blocks.flatMap fun b => [b.line, []]

/-- **The text of blocks has the lines of the blocks.** -/
theorem splitlines_text {blocks : List Block} (h : ∀ b ∈ blocks, b.Proper) :
    splitlines (blocks.flatMap Block.text) = written blocks := by
  have hlines : ∀ line ∈ written blocks, ∀ c ∈ line, isBoundary c = false := by
    intro line hline
    obtain ⟨b, hb, hline⟩ := List.mem_flatMap.1 hline
    rcases List.mem_cons.1 hline with rfl | hline
    · exact (h b hb).1
    · rw [List.mem_singleton.1 hline]
      exact fun c hc => absurd hc List.not_mem_nil
  have htext : blocks.flatMap Block.text = (written blocks).flatMap (· ++ ['\n']) := by
    rw [written, List.flatMap_assoc]
    refine List.flatMap_congr fun b _ => ?_
    simp [Block.text]
  have hjoined := splitlines_joined (written blocks) hlines []
  rw [List.append_nil] at hjoined
  rw [htext, hjoined]
  exact List.append_nil _

section Read

variable {β : Type} (d : Dialect) (handle : Item → Option (List β))

/-- What a reader does with a block. -/
def Block.outcome (d : Dialect) (handle : Item → Option (List β)) (b : Block) : Option (List β) :=
  match b with
  | .event _ => if d.size b.line > d.limit then none else handle (.event [d.value b.line])
  | .comment line => handle (.comment line)

/-- **What is written in blocks is read one block after the other.** -/
theorem read_written {blocks : List Block} (h : ∀ b ∈ blocks, b.Proper) :
    read d handle [] 0 (written blocks) = consume (Block.outcome d handle) blocks := by
  induction blocks with
  | nil => rfl
  | cons b blocks ih =>
    rw [List.forall_mem_cons] at h
    have hrest := ih h.2
    have hlines : written (b :: blocks) = b.line :: [] :: written blocks := by simp [written]
    rw [hlines]
    cases b with
    | event text =>
      have hdata : isData (Block.event text).line = true := by
        simp [isData, dataPrefix, Block.line]
      have hne : (Block.event text).line.isEmpty = false := rfl
      rw [read, hne, if_neg Bool.false_ne_true, if_pos hdata, Nat.zero_add]
      by_cases hsize : d.size (Block.event text).line > d.limit
      · have hfail : Block.outcome d handle (.event text) = none := if_pos hsize
        rw [if_pos hsize, consume_cons_none hfail]
      · rw [if_neg hsize, read]
        have hhandle : Block.outcome d handle (.event text) =
            handle (.event [d.value (Block.event text).line]) := if_neg hsize
        simp only [List.isEmpty_nil, if_true, List.nil_append, List.isEmpty_cons, Bool.false_eq_true, if_false]
        cases hout : handle (.event [d.value (Block.event text).line]) with
        | none => rw [consume_cons_none (hhandle.trans hout)]
        | some out => rw [consume_cons_some (hhandle.trans hout), ← hrest]
    | comment line =>
      have hhead := h.1.2 line rfl
      cases line with
      | nil => cases hhead
      | cons c line =>
        obtain rfl : c = ':' := Option.some.inj hhead
        have hdata : isData (':' :: line) = false := rfl
        rw [read]
        simp only [Block.line, List.isEmpty_cons, Bool.false_eq_true, if_false, hdata, hhead, if_true]
        have hread : read d handle [] 0 ([] :: written blocks) = read d handle [] 0 (written blocks) := by
          rw [read]
          simp
        rw [hread]
        have hhandle : Block.outcome d handle (.comment (':' :: line)) = handle (.comment (':' :: line)) := rfl
        cases hout : handle (.comment (':' :: line)) with
        | none => rw [consume_cons_none (hhandle.trans hout)]
        | some out => rw [consume_cons_some (hhandle.trans hout), ← hrest]

end Read

end OpencodeCloud.Library.Sse
