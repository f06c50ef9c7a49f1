import Mathlib
import HclEditor.Text.Utf8
import HclEditor.Proofs.Token.Piece
import HclEditor.Proofs.Token.Stream

/-!
# Tokens tile a source

A source is a row of pieces, its tokens and the gaps between them. So the tokens lie on it one
behind the other, what lies between them is blank, and every token is at the line and the column
that are found by counting in the text in front of it.
-/

namespace HclEditor

namespace Position

theorem offset_advance (position : Position) (cs : List Char) :
    (position.advance cs).offset = position.offset + (String.ofList cs).utf8ByteSize := by
  induction cs generalizing position with
  | nil => rfl
  | cons c cs ih =>
      have hnext : (position.next c).offset = position.offset + c.utf8Size := by
        rw [next]
        split <;> rfl
      rw [advance_cons, ih, hnext, String.ofList_cons, String.utf8ByteSize_append,
        String.utf8ByteSize_singleton, Nat.add_assoc]

theorem offset_advance_start (text : String) :
    (start.advance text.toList).offset = text.utf8ByteSize := by
  rw [offset_advance, String.ofList_toList]
  exact Nat.zero_add _

/-- The characters of a text that are in front of a byte offset. -/
def charsBefore (offset : Nat) : List Char → List Char
  | [] => []
  | c :: cs => if c.utf8Size ≤ offset then c :: charsBefore (offset - c.utf8Size) cs else []

/-- The place of a byte offset: its line is one more than the line feeds in front of it, and its
column is one more than the characters between the last of these and itself. -/
def locate (source : String) (offset : Nat) : Position :=
  let before := charsBefore offset source.toList
  ⟨offset, before.count '\n' + 1, (before.reverse.takeWhile (· ≠ '\n')).length + 1⟩

theorem charsBefore_append (before after : List Char) :
    charsBefore (String.ofList before).utf8ByteSize (before ++ after) = before := by
  induction before with
  | nil =>
      cases after with
      | nil => rfl
      | cons c after => exact if_neg (Nat.not_le.mpr c.utf8Size_pos)
  | cons c before ih =>
      rw [String.ofList_cons, String.utf8ByteSize_append, String.utf8ByteSize_singleton,
        List.cons_append, charsBefore, if_pos (Nat.le_add_right _ _), Nat.add_sub_cancel_left, ih]

/-- Counting character by character comes to the place that is found by looking back. -/
theorem locate_append (before after : List Char) :
    locate (String.ofList (before ++ after)) (String.ofList before).utf8ByteSize =
      start.advance before := by
  rw [locate, String.toList_ofList, charsBefore_append]
  induction before using List.reverseRecOn with
  | nil => rfl
  | append_singleton before c ih =>
      rw [advance_append, ← ih, String.ofList_append, String.utf8ByteSize_append, advance_cons,
        advance_nil, next]
      by_cases hc : c = '\n'
      · subst hc
        simp
        rfl
      · simp [hc]

end Position

namespace Piece

theorem exists_of_scanFrom {position : Position} {cs : List Char} {stream : TokenStream}
    (hscan : TokenStream.scanFrom position cs = .ok stream) :
    ∃ pieces, Separate False [] pieces ∧ charsOf pieces = cs ∧
      stream = ⟨tokensFrom position pieces, position.advance cs⟩ := by
  fun_induction TokenStream.scanFrom position cs generalizing stream
  case case1 position =>
    cases hscan
    exact ⟨[], separate_nil, rfl, rfl⟩
  case case2 position c cs hgap ih =>
    obtain ⟨pieces, hpieces, rfl, rfl⟩ := ih hscan
    exact ⟨.gap [c] :: pieces, ⟨by simpa using hgap, hpieces⟩, rfl, rfl⟩
  case case3 => cases hscan
  case case4 position c cs hgap kind count hread text stop ih =>
    obtain ⟨own, behind, rfl, rfl, -⟩ := Lexeme.readsLocally hread
    rw [List.drop_left] at hscan ih
    cases hrest : TokenStream.scanFrom stop behind with
    | error error =>
        rw [hrest] at hscan
        cases hscan
    | ok others =>
        obtain ⟨pieces, hpieces, rfl, rfl⟩ := ih hrest
        rw [hrest] at hscan
        cases hscan
        have htext : text = c :: own := congrArg _ List.take_left
        have hreads : kind.Reads (String.ofList text) (charsOf pieces) := by
          refine ⟨c, own, by rw [String.toList_ofList, htext], by simpa using hgap, hread⟩
        refine ⟨.token kind (String.ofList text) :: pieces, ⟨?_, hpieces⟩, ?_, ?_⟩
        · rw [List.append_nil]
          exact TokenKind.readsBefore_iff_reads.mpr hreads
        · rw [charsOf_token, String.toList_ofList, htext, List.cons_append]
        · rw [tokensFrom_token, String.toList_ofList, ← List.cons_append, ← htext,
            Position.advance_append]
          rfl

section Row

variable {position : Position} {pieces : List Piece} {rest : List Char}

/-- No token starts in front of the row, or stops in front of where it starts. -/
theorem offset_le_of_mem {token : Token} (htoken : token ∈ tokensFrom position pieces) :
    position.offset ≤ token.start.offset ∧ token.start.offset ≤ token.stop.offset := by
  induction pieces generalizing position with
  | nil => cases htoken
  | cons piece pieces ih =>
      cases piece with
      | gap chars =>
          obtain ⟨hstart, hstop⟩ := ih htoken
          rw [Position.offset_advance] at hstart
          exact ⟨by omega, hstop⟩
      | token kind text =>
          rw [tokensFrom_token] at htoken
          rcases List.mem_cons.mp htoken with rfl | htoken
          · exact ⟨le_rfl, by rw [Position.offset_advance]; exact Nat.le_add_right _ _⟩
          · obtain ⟨hstart, hstop⟩ := ih htoken
            rw [Position.offset_advance] at hstart
            exact ⟨by omega, hstop⟩

/-- Each token stops before those behind it start. -/
theorem pairwise_tokensFrom (position : Position) (pieces : List Piece) :
    (tokensFrom position pieces).Pairwise fun first second =>
      first.stop.offset ≤ second.start.offset := by
  induction pieces generalizing position with
  | nil => exact .nil
  | cons piece pieces ih =>
      cases piece with
      | gap chars => exact ih _
      | token kind text => exact .cons (fun second hsecond => (offset_le_of_mem hsecond).1) (ih _)

/-- The characters of gaps, which are one byte each. -/
theorem mem_of_mem_encode_gap {c : Char} (hgap : Lexeme.isGap c = true) {byte : UInt8}
    (hbyte : byte ∈ String.utf8EncodeChar c) : byte ∈ [0x20, 0x09, 0x0d, 0x0a] := by
  simp only [Lexeme.isGap, Bool.or_eq_true, beq_iff_eq, or_assoc] at hgap
  rcases hgap with rfl | rfl | rfl | rfl <;> rw [List.mem_singleton.mp hbyte] <;> decide

theorem length_encode (cs : List Char) :
    (cs.flatMap String.utf8EncodeChar).length = (String.ofList cs).utf8ByteSize := by
  induction cs with
  | nil => rfl
  | cons c cs ih =>
      rw [List.flatMap_cons, List.length_append, ih, String.length_utf8EncodeChar,
        String.ofList_cons, String.utf8ByteSize_append, String.utf8ByteSize_singleton]

/-- A byte behind some characters is a byte of what follows them. -/
theorem getElem?_encode_append {before after : List Char} {index : Nat}
    (hindex : (position.advance before).offset ≤ index) :
    ((before ++ after).flatMap String.utf8EncodeChar)[index - position.offset]? =
      (after.flatMap String.utf8EncodeChar)[index - (position.advance before).offset]? := by
  rw [Position.offset_advance] at hindex ⊢
  rw [List.flatMap_append, List.getElem?_append_right (by rw [length_encode]; omega),
    length_encode, Nat.sub_sub]

/-- A byte of the row that is in no token is in a gap. -/
theorem mem_of_not_mem_tokens (hpieces : Separate False rest pieces) {index : Nat} {byte : UInt8}
    (hindex : position.offset ≤ index)
    (hbyte : ((charsOf pieces).flatMap String.utf8EncodeChar)[index - position.offset]? = some byte)
    (houtside : ∀ token ∈ tokensFrom position pieces,
      index < token.start.offset ∨ token.stop.offset ≤ index) :
    byte ∈ [0x20, 0x09, 0x0d, 0x0a] := by
  induction pieces generalizing position with
  | nil => cases hbyte
  | cons piece pieces ih =>
      cases piece with
      | gap chars =>
          obtain ⟨hgaps, hpieces⟩ := separate_gap.mp hpieces
          rw [charsOf_gap] at hbyte
          by_cases hbehind : (position.advance chars).offset ≤ index
          · rw [getElem?_encode_append hbehind] at hbyte
            exact ih hpieces hbehind hbyte houtside
          · rw [Position.offset_advance, ← length_encode] at hbehind
            rw [List.flatMap_append, List.getElem?_append_left (by omega)] at hbyte
            obtain ⟨c, hc, hbyte⟩ := List.mem_flatMap.mp (List.mem_of_getElem? hbyte)
            exact mem_of_mem_encode_gap (hgaps c hc) hbyte
      | token kind text =>
          obtain ⟨-, hpieces⟩ := separate_token.mp hpieces
          obtain ⟨htoken, houtside⟩ := List.forall_mem_cons.mp houtside
          have hbehind : (position.advance text.toList).offset ≤ index :=
            htoken.resolve_left (Nat.not_lt.mpr hindex)
          rw [charsOf_token, getElem?_encode_append hbehind] at hbyte
          exact ih hpieces hbehind hbyte houtside

end Row

end Piece

namespace TokenStream

/-- The tokens lie on the source one behind the other, and each knows where it lies. -/
structure Tiles (source : String) (stream : TokenStream) : Prop where
  not_ending : ∀ token ∈ stream.tokens, token.kind ≠ .ending
  /-- The one ending is the last of all tokens, behind the whole source. -/
  ending : stream.toList = stream.tokens ++ [stream.ending] ∧ stream.ending.kind = .ending ∧
    stream.ending.start.offset = source.utf8ByteSize ∧
    stream.ending.stop.offset = source.utf8ByteSize
  /-- The offsets of a token are those between which its text is in the source. -/
  cut : ∀ token ∈ stream.tokens, token.start.offset < token.stop.offset ∧
    ∃ before after, source = before ++ token.text ++ after ∧
      token.start.offset = before.utf8ByteSize ∧
      token.stop.offset = (before ++ token.text).utf8ByteSize
  ordered : stream.tokens.Pairwise fun first second => first.stop.offset ≤ second.start.offset
  /-- A byte in no token is a blank, a tab, a carriage return or a line feed. -/
  blank : ∀ index byte, (Text.encode source)[index]? = some byte →
    (∀ token ∈ stream.tokens, index < token.start.offset ∨ token.stop.offset ≤ index) →
      byte ∈ [0x20, 0x09, 0x0d, 0x0a]
  located : ∀ token ∈ stream.toList, token.start = .locate source token.start.offset ∧
    token.stop = .locate source token.stop.offset

section Scan

variable {source : String} {stream : TokenStream}

/-- A token of a source is a piece of it, with its place. -/
theorem exists_append_of_mem (hscan : scan source = .ok stream) {token : Token}
    (htoken : token ∈ stream.tokens) :
    token.kind ≠ .ending ∧ token.text ≠ "" ∧
      ∃ before after, source = before ++ token.text ++ after ∧
        token.start = Position.start.advance before.toList ∧
        token.stop = Position.start.advance (before ++ token.text).toList := by
  obtain ⟨before, after, hsplit, hreads, hstart, hstop⟩ := reads_of_scanFrom hscan htoken
  refine ⟨hreads.ne_ending, ?_, String.ofList before, String.ofList after, ?_, ?_, ?_⟩
  · obtain ⟨c, cs, htext, -⟩ := hreads
    rintro hempty
    simp [hempty] at htext
  · rw [← String.toList_inj, hsplit]
    simp
  · rw [hstart, String.toList_ofList]
  · rw [hstop, hstart, String.toList_append, String.toList_ofList, Position.advance_append]

theorem start_lt_stop (hscan : scan source = .ok stream) {token : Token}
    (htoken : token ∈ stream.tokens) : token.start.offset < token.stop.offset := by
  obtain ⟨-, hne, before, -, -, hstart, hstop⟩ := exists_append_of_mem hscan htoken
  have hpos : token.text.utf8ByteSize ≠ 0 := mt String.utf8ByteSize_eq_zero_iff.mp hne
  rw [hstart, hstop, Position.offset_advance_start, Position.offset_advance_start,
    String.utf8ByteSize_append]
  omega

theorem pairwise_of_scan (hscan : scan source = .ok stream) :
    stream.tokens.Pairwise fun first second => first.stop.offset ≤ second.start.offset := by
  obtain ⟨pieces, -, -, rfl⟩ := Piece.exists_of_scanFrom hscan
  exact Piece.pairwise_tokensFrom .start pieces

theorem stop_le_start (hscan : scan source = .ok stream) {front behind : List Token}
    (htokens : stream.tokens = front ++ behind) {first second : Token} (hfirst : first ∈ front)
    (hsecond : second ∈ behind) : first.stop.offset ≤ second.start.offset := by
  have hordered := pairwise_of_scan hscan
  rw [htokens, List.pairwise_append] at hordered
  exact hordered.2.2 first hfirst second hsecond

/-- Where scanning succeeds, the tokens tile the source. -/
theorem tiles_of_scan (hscan : scan source = .ok stream) : stream.Tiles source := by
  have hlocate {before after : String} (hsplit : source = before ++ after) :
      Position.start.advance before.toList =
        .locate source (Position.start.advance before.toList).offset := by
    have hlocate := Position.locate_append before.toList after.toList
    rwa [String.ofList_append, String.ofList_toList, String.ofList_toList, ← hsplit,
      ← Position.offset_advance_start, eq_comm] at hlocate
  constructor
  case not_ending => exact fun token htoken => (exists_append_of_mem hscan htoken).1
  case ending =>
    obtain ⟨pieces, -, -, rfl⟩ := Piece.exists_of_scanFrom hscan
    exact ⟨rfl, rfl, Position.offset_advance_start source, Position.offset_advance_start source⟩
  case cut =>
    intro token htoken
    obtain ⟨-, -, before, after, hsplit, hstart, hstop⟩ := exists_append_of_mem hscan htoken
    refine ⟨start_lt_stop hscan htoken, before, after, hsplit, ?_, ?_⟩
    · rw [hstart, Position.offset_advance_start]
    · rw [hstop, Position.offset_advance_start]
  case ordered => exact pairwise_of_scan hscan
  case blank =>
    intro index byte hbyte houtside
    obtain ⟨pieces, hpieces, hchars, rfl⟩ := Piece.exists_of_scanFrom hscan
    rw [Text.encode, ← hchars] at hbyte
    exact Piece.mem_of_not_mem_tokens hpieces (Nat.zero_le index) hbyte houtside
  case located =>
    intro token htoken
    rcases List.mem_append.mp htoken with htoken | htoken
    · obtain ⟨-, -, before, after, hsplit, hstart, hstop⟩ := exists_append_of_mem hscan htoken
      rw [hstart, hstop]
      exact ⟨hlocate (hsplit.trans String.append_assoc), hlocate hsplit⟩
    · obtain ⟨pieces, -, -, rfl⟩ := Piece.exists_of_scanFrom hscan
      rw [List.mem_singleton.mp htoken]
      have hsource := hlocate (String.append_empty (s := source)).symm
      exact ⟨hsource, hsource⟩

end Scan

/-- A name of two bytes, and a sign on the line below, behind a carriage return. -/
theorem tiles_of_scan_two_lines :
    scan "é\r\n =" = .ok ⟨[⟨.identifier, "é", ⟨0, 1, 1⟩, ⟨2, 1, 2⟩⟩,
        ⟨.assign, "=", ⟨5, 2, 2⟩, ⟨6, 2, 3⟩⟩], ⟨6, 2, 3⟩⟩ ∧
      Tiles "é\r\n =" ⟨[⟨.identifier, "é", ⟨0, 1, 1⟩, ⟨2, 1, 2⟩⟩,
        ⟨.assign, "=", ⟨5, 2, 2⟩, ⟨6, 2, 3⟩⟩], ⟨6, 2, 3⟩⟩ := by
  have hscan : scan "é\r\n =" = .ok ⟨[⟨.identifier, "é", ⟨0, 1, 1⟩, ⟨2, 1, 2⟩⟩,
      ⟨.assign, "=", ⟨5, 2, 2⟩, ⟨6, 2, 3⟩⟩], ⟨6, 2, 3⟩⟩ := by decide +kernel
  exact ⟨hscan, tiles_of_scan hscan⟩

end TokenStream

end HclEditor
