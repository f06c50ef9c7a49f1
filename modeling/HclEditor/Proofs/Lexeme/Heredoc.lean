import Mathlib
import HclEditor.Proofs.Lexeme.Line

/-!
# The parts of a heredoc

Behind its two opening characters a heredoc consists of a dash or nothing, the anchor, a
carriage return or nothing, a line feed, the lines of its body, and the closing line. It
reaches as far as these parts do whenever a line feed or the end of the text follows,
and further whenever anything follows that keeps the anchor from being alone.
-/

namespace HclEditor.Lexeme

theorem heredocBodyLength?_append_lineFeed (anchor : List Char) (count : Nat)
    {line : List Char} (hline : '\n' ∉ line) (rest : List Char) :
    heredocBodyLength? anchor count (line ++ '\n' :: rest) =
      if Text.trim line = anchor then some (count + line.length)
      else heredocBodyLength? anchor (count + line.length + 1) rest := by
  have hrest : lineRest (line ++ '\n' :: rest) = line := by
    rw [lineRest_append hline]
    simp [lineRest]
  rw [heredocBodyLength?, hrest]
  split
  · rfl
  · split
    next hdrop => simp at hdrop
    next hdrop =>
      simp only [List.drop_left, List.cons.injEq] at hdrop
      rw [hdrop.2]

theorem heredocBodyLength?_of_not_mem (anchor : List Char) (count : Nat)
    {line : List Char} (hline : '\n' ∉ line) :
    heredocBodyLength? anchor count line =
      if Text.trim line = anchor then some (count + line.length) else none := by
  rw [heredocBodyLength?, lineRest_of_not_mem hline]
  split
  · rfl
  · split
    next => rfl
    next hdrop => simp at hdrop

/-- Lines above the closing one are passed over, whatever follows them. -/
theorem heredocBodyLength?_terminated {anchor : List Char} {lines : List (List Char)}
    (hlines : ∀ line ∈ lines, '\n' ∉ line ∧ Text.trim line ≠ anchor) (count : Nat)
    (tail : List Char) :
    heredocBodyLength? anchor count (terminated lines ++ tail) =
      heredocBodyLength? anchor (count + (terminated lines).length) tail := by
  induction lines generalizing count with
  | nil => rfl
  | cons line lines ih =>
      obtain ⟨⟨hfeed, htrim⟩, hlines⟩ := List.forall_mem_cons.mp hlines
      rw [terminated_cons, List.append_assoc, List.cons_append,
        heredocBodyLength?_append_lineFeed _ _ hfeed, if_neg htrim, ih hlines,
        List.length_append, List.length_cons]
      congr 1
      omega

/-- What stands behind the two opening characters of a heredoc. `lines` are the ones above
the closing line; none of them is the anchor. -/
structure HeredocParts where
  dash : List Char
  anchor : List Char
  carriage : List Char
  lines : List (List Char)
  closing : List Char
  dash_eq : dash = [] ∨ dash = ['-']
  anchor_ne_nil : anchor ≠ []
  anchor_chars : ∀ c ∈ anchor, isAnchorChar c = true
  carriage_eq : carriage = [] ∨ carriage = ['\r']
  lines_open : ∀ line ∈ lines, '\n' ∉ line ∧ Text.trim line ≠ anchor
  closing_line : '\n' ∉ closing
  trim_closing : Text.trim closing = anchor

/-- A heredoc's body is passed over line by line up to the closing line. -/
theorem heredocBodyLength?_eq_some {anchor : List Char} {count n : Nat} {cs : List Char}
    (hlength : heredocBodyLength? anchor count cs = some n) :
    ∃ lines closing rest, cs = terminated lines ++ closing ++ rest ∧
      (∀ line ∈ lines, '\n' ∉ line ∧ Text.trim line ≠ anchor) ∧ '\n' ∉ closing ∧
      Text.trim closing = anchor ∧ AtLineEnd rest ∧
      n = count + (terminated lines).length + closing.length := by
  -- Each line that is passed over is dropped whole, so the induction is on the length.
  induction hsize : cs.length using Nat.strong_induction_on generalizing cs count with
  | _ size ih =>
      have hline := not_mem_lineRest cs
      have hsplit := lineRest_append_drop cs
      have hend := atLineEnd_drop_lineRest cs
      by_cases htrim : Text.trim (lineRest cs) = anchor
      · rw [heredocBodyLength?, if_pos htrim, Option.some.injEq] at hlength
        refine ⟨[], lineRest cs, _, hsplit.symm, by simp, hline, htrim, hend, ?_⟩
        rw [← hlength, terminated_nil, List.length_nil, Nat.add_zero]
      · cases hdrop : cs.drop (lineRest cs).length with
        | nil =>
            rw [hdrop, List.append_nil] at hsplit
            rw [← hsplit, heredocBodyLength?_of_not_mem _ _ hline, if_neg htrim] at hlength
            cases hlength
        | cons c rest =>
            rw [hdrop, AtLineEnd, startsIn_cons, beq_iff_eq] at hend
            subst hend
            rw [hdrop] at hsplit
            rw [← hsplit, heredocBodyLength?_append_lineFeed _ _ hline, if_neg htrim] at hlength
            have hshorter : rest.length < size := by
              rw [← hsize, ← hsplit, List.length_append, List.length_cons]
              omega
            obtain ⟨lines, closing, behind, rfl, hlines, hclosing, hanchor, hbehind, hn⟩ :=
              ih _ hshorter hlength rfl
            refine ⟨lineRest cs :: lines, closing, behind, ?_,
              List.forall_mem_cons.mpr ⟨⟨hline, htrim⟩, hlines⟩, hclosing, hanchor, hbehind, ?_⟩
            · exact hsplit.symm.trans (by simp)
            · rw [hn, terminated_cons, List.length_append, List.length_cons]
              omega

namespace HeredocParts

/-- The parts up to the line feed behind the anchor. -/
def opening (parts : HeredocParts) : List Char :=
  parts.dash ++ parts.anchor ++ parts.carriage ++ ['\n']

/-- The lines above the closing one, with their line feeds. -/
def body (parts : HeredocParts) : List Char :=
  terminated parts.lines

/-- All characters behind the two opening ones. -/
def chars (parts : HeredocParts) : List Char :=
  parts.opening ++ parts.body ++ parts.closing

theorem body_passed (parts : HeredocParts) (count : Nat) (tail : List Char) :
    heredocBodyLength? parts.anchor count (parts.body ++ tail) =
      heredocBodyLength? parts.anchor (count + parts.body.length) tail :=
  heredocBodyLength?_terminated parts.lines_open count tail

end HeredocParts

theorem isAnchorChar_dash : isAnchorChar '-' = false := by
  decide +kernel

theorem isAnchorChar_carriage : isAnchorChar '\r' = false := by
  decide +kernel

theorem isAnchorChar_lineFeed : isAnchorChar '\n' = false := by
  decide +kernel

/-- An optional character is there exactly if it comes first, where nothing else may. -/
theorem length_optional {c : Char} {front behind : List Char} (hfront : front = [] ∨ front = [c])
    (hbehind : behind.head? ≠ some c) :
    (if (front ++ behind).head? = some c then 1 else 0) = front.length := by
  rcases hfront with rfl | rfl <;> simp [hbehind]

/-- An anchor reaches up to the end of its line. -/
theorem takeWhile_anchor {anchor carriage : List Char}
    (hchars : ∀ c ∈ anchor, isAnchorChar c = true) (hcarriage : carriage = [] ∨ carriage = ['\r']) (rest : List Char) :
    (anchor ++ (carriage ++ '\n' :: rest)).takeWhile isAnchorChar = anchor := by
  rw [List.takeWhile_append_of_pos hchars]
  rcases hcarriage with rfl | rfl <;> simp [isAnchorChar_carriage, isAnchorChar_lineFeed]

/-- Behind an opening the length depends on the body alone. -/
theorem heredocLength_opening {dash anchor carriage : List Char}
    (hdash : dash = [] ∨ dash = ['-']) (hanchor : anchor ≠ [])
    (hchars : ∀ c ∈ anchor, isAnchorChar c = true)
    (hcarriage : carriage = [] ∨ carriage = ['\r']) (rest : List Char) :
    heredocLength (dash ++ anchor ++ carriage ++ '\n' :: rest) =
      match heredocBodyLength? anchor
        (dash.length + anchor.length + carriage.length + 1) rest with
      | some count => .ok count
      | none => .error (.heredocNotClosed (String.ofList anchor)) := by
  have hrun := takeWhile_anchor hchars hcarriage rest
  have hfeed : ('\n' :: rest).head? ≠ some '\r' := by simp
  have hreturn := length_optional hcarriage hfeed
  have hbody : (carriage ++ '\n' :: rest).drop carriage.length = '\n' :: rest := List.drop_left
  obtain ⟨tail, htail⟩ : ∃ tail, tail = carriage ++ '\n' :: rest := ⟨_, rfl⟩
  rw [← htail] at hrun hreturn hbody
  have hfirst : (anchor ++ tail).head? ≠ some '-' := by
    obtain ⟨first, more, rfl⟩ := List.exists_cons_of_ne_nil hanchor
    rintro ⟨⟩
    exact absurd (hchars '-' List.mem_cons_self) (by simp [isAnchorChar_dash])
  have hdashLength := length_optional hdash hfirst
  have hbehind : (dash ++ (anchor ++ tail)).drop dash.length = anchor ++ tail := List.drop_left
  have hafter : (dash ++ (anchor ++ tail)).drop (dash.length + anchor.length) = tail := by
    rw [← List.append_assoc, ← List.length_append, List.drop_left]
  rw [List.append_assoc _ carriage, ← htail, List.append_assoc]
  cases hlength : heredocBodyLength? anchor
      (dash.length + anchor.length + carriage.length + 1) rest with
  | none =>
      simp only [heredocLength, hdashLength, hbehind, hrun, hafter, hreturn, hbody, if_neg hanchor,
        hlength]
  | some count =>
      simp only [heredocLength, hdashLength, hbehind, hrun, hafter, hreturn, hbody, if_neg hanchor,
        hlength]

/-- An optional character at the front, and what stands behind it. -/
theorem exists_optional (c : Char) (cs : List Char) :
    ∃ front behind, cs = front ++ behind ∧ (front = [] ∨ front = [c]) ∧
      (if cs.head? = some c then 1 else 0) = front.length := by
  by_cases hhead : cs.head? = some c
  · obtain ⟨behind, rfl⟩ := List.head?_eq_some_iff.mp hhead
    exact ⟨[c], behind, rfl, .inr rfl, by simp⟩
  · exact ⟨[], cs, rfl, .inl rfl, by simp [hhead]⟩

/-- A heredoc that is read has parts, and what follows it is on another line. -/
theorem heredocLength_eq_ok {cs : List Char} {n : Nat} (hlength : heredocLength cs = .ok n) :
    ∃ (parts : HeredocParts) (rest : List Char),
      cs = parts.chars ++ rest ∧ n = parts.chars.length ∧ AtLineEnd rest := by
  obtain ⟨dash, tail, hcs, hdash, hhead⟩ := exists_optional '-' cs
  obtain ⟨anchor, hanchor⟩ : ∃ anchor, anchor = tail.takeWhile isAnchorChar := ⟨_, rfl⟩
  obtain ⟨after, hafter⟩ : ∃ after, tail = anchor ++ after :=
    ⟨tail.dropWhile isAnchorChar, by rw [hanchor, List.takeWhile_append_dropWhile]⟩
  obtain ⟨carriage, behind, hbehind, hcarriage, hreturn⟩ := exists_optional '\r' after
  have hrun : (cs.drop dash.length).takeWhile isAnchorChar = anchor := by
    rw [hcs, List.drop_left, hanchor]
  have hdrop : cs.drop (dash.length + anchor.length) = after := by
    rw [hcs, hafter, ← List.append_assoc, ← List.length_append, List.drop_left]
  have hrest : after.drop carriage.length = behind := by
    rw [hbehind, List.drop_left]
  simp only [heredocLength, hhead, hrun, hdrop, hreturn, hrest] at hlength
  split at hlength
  next => cases hlength
  next hne =>
    split at hlength
    next body =>
      split at hlength
      next count hcount =>
        cases hlength
        obtain ⟨lines, closing, rest, rfl, hlines, hclosing, htrim, hend, hn⟩ :=
          heredocBodyLength?_eq_some hcount
        have hchars : ∀ c ∈ anchor, isAnchorChar c = true := by
          rw [hanchor]
          exact fun c hc => List.mem_takeWhile_imp hc
        refine ⟨⟨dash, anchor, carriage, lines, closing, hdash, hne, hchars, hcarriage,
          hlines, hclosing, htrim⟩, rest, ?_, ?_, hend⟩
        · simp [HeredocParts.chars, HeredocParts.opening, HeredocParts.body, hcs, hafter, hbehind]
        · rw [hn]
          simp only [HeredocParts.chars, HeredocParts.opening, HeredocParts.body,
            List.length_append, List.length_cons, List.length_nil]
      next => cases hlength
    next => cases hlength

namespace HeredocParts

/-- How far a heredoc reaches is decided behind its body. -/
theorem heredocLength_append (parts : HeredocParts) (tail : List Char) :
    heredocLength (parts.opening ++ parts.body ++ tail) =
      match heredocBodyLength? parts.anchor (parts.opening ++ parts.body).length tail with
      | some count => .ok count
      | none => .error (.heredocNotClosed (String.ofList parts.anchor)) := by
  have hlength : (parts.opening ++ parts.body).length =
      parts.dash.length + parts.anchor.length + parts.carriage.length + 1 +
        parts.body.length := by
    simp [opening]
    omega
  rw [hlength, ← parts.body_passed, opening, List.append_assoc _ parts.body,
    List.append_assoc _ ['\n'], List.singleton_append]
  exact heredocLength_opening parts.dash_eq parts.anchor_ne_nil parts.anchor_chars
    parts.carriage_eq _

/-- A heredoc ends with its closing line if nothing else is on that line. -/
theorem heredocLength_chars (parts : HeredocParts) {rest : List Char} (hrest : AtLineEnd rest) :
    heredocLength (parts.chars ++ rest) = .ok parts.chars.length := by
  have hline : lineRest (parts.closing ++ rest) = parts.closing := by
    rw [lineRest_append_of_atLineEnd _ hrest, lineRest_of_not_mem parts.closing_line]
  rw [chars, List.append_assoc _ parts.closing, heredocLength_append, heredocBodyLength?,
    hline, if_pos parts.trim_closing, ← List.length_append]

/-- With more behind its closing line a heredoc only becomes longer. -/
theorem le_heredocLength (parts : HeredocParts) {tail : List Char} {n : Nat}
    (hlength : heredocLength (parts.chars ++ tail) = .ok n) : parts.chars.length ≤ n := by
  rw [chars, List.append_assoc _ parts.closing, heredocLength_append] at hlength
  split at hlength
  next count hcount =>
    cases hlength
    obtain ⟨lines, closing, rest, hsplit, -, -, -, hrest, hn⟩ := heredocBodyLength?_eq_some hcount
    -- No line feed is inside the closing line, so the heredoc cannot end before it does.
    have hreach : parts.closing.length ≤ (terminated lines ++ closing).length := by
      rcases List.append_eq_append_iff.mp hsplit with ⟨more, hmore, -⟩ | ⟨more, hmore, hbehind⟩
      · rw [hmore, List.length_append]
        exact Nat.le_add_right _ _
      · cases more with
        | nil => rw [hmore, List.append_nil]
        | cons c more =>
            rw [hbehind, List.cons_append, AtLineEnd, startsIn_cons, beq_iff_eq] at hrest
            have hclosing := parts.closing_line
            rw [hmore, hrest] at hclosing
            exact absurd (List.mem_append_right _ List.mem_cons_self) hclosing
    rw [List.length_append] at hreach
    rw [chars, List.length_append, hn]
    omega
  next => cases hlength

end HeredocParts

end HclEditor.Lexeme
