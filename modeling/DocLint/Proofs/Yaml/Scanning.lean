import DocLint.Proofs.Yaml.Escapes
import DocLint.Yaml.Token.Lexer

/-!
# Faults of scanning tokens

What the scanner does with a token it does with the cursor that the token leaves and with the tokens before it
(`Lexer.Within`). A text is scanned to its end, or up to a fault that it causes itself (`Token.scan_fair`). Besides,
no plain scalar has a line end behind it.
-/
namespace DocLint.Yaml

/-- A plain scalar has no line end behind it. -/
def Token.EndsInLine (t : Token) : Prop :=
  ∀ text, t.kind = .scalar text true → text.toList.getLast? ≠ some '\n'

theorem Token.endsInLine_of_quoted (text : String) (start stop : Position) :
    Token.EndsInLine ⟨.scalar text false, start, stop⟩ := by
  intro other same
  simp at same

namespace Lexer
open Scalars (GoesOn Scans ignoredLine_settles)

/-- What is ahead of the scanner is the end of a text, and the plain scalars behind it end without a line end. -/
structure Within (l : Lexer) (whole : List Char) : Prop where
  ahead : l.cursor.Within whole
  behind : ∀ t ∈ l.tokens, t.EndsInLine

/-- A step stays within a text and fails for what the text causes only. -/
abbrev Stays (whole : List Char) (attempt : Except YamlError Lexer) : Prop :=
  Settles (.of whole) (fun l => l.Within whole) attempt

variable {c : Cursor} {l : Lexer} {whole : List Char}

/-! ### Directives, tags and anchors -/

theorem tagHandle_settles (inside : c.Within whole) : Scans whole (tagHandle c) := by
  unfold tagHandle
  dsimp only
  split
  · exact .malformed
  · split
    · exact .ok inside.next
    · split
      · exact .ok (inside.next.skip _).next
      · exact .malformed

theorem tagBytes_settles (fuel : Nat) (inside : c.Within whole) : Scans whole (tagBytes fuel c) := by
  induction fuel generalizing c with
  | zero => exact .malformed
  | succ fuel ih =>
    rw [tagBytes]
    split
    · dsimp only
      split
      · exact (ih (inside.skip 3)).bind fun r onward => .ok onward
      · exact .malformed
    · exact .ok inside

theorem tagText_settles (fuel : Nat) (inside : c.Within whole) : Scans whole (tagText fuel c) := by
  induction fuel generalizing c with
  | zero => exact .malformed
  | succ fuel ih =>
    rw [tagText]
    dsimp only
    split
    · refine (tagBytes_settles _ (inside.skip _)).bind fun bytes first => ?_
      split
      · exact (ih first).bind fun r onward => .ok onward
      · exact .malformed
    · exact .ok (inside.skip _)

theorem nonemptyTagText_settles (inside : c.Within whole) : Scans whole (nonemptyTagText c) := by
  unfold nonemptyTagText
  refine (tagText_settles _ inside).bind fun r onward => ?_
  dsimp only
  split
  · exact .malformed
  · exact .ok onward

/-- The digits that are too many for an integer are in its text. -/
theorem limit_lt_length {s : String} {count : Nat} (beyond : Number.beyondLimit? s = some count) :
    Number.decimalLimit < s.toList.length := by
  have trimmed : ∀ cs : List Char, (Text.trimChars cs).length ≤ cs.length := by
    intro cs
    have front := (List.dropWhile_suffix Text.isBlank (l := cs)).length_le
    have back := (List.dropWhile_suffix Text.isBlank (l := (cs.dropWhile Text.isBlank).reverse)).length_le
    rw [List.length_reverse] at back
    rw [Text.trimChars, List.length_reverse]
    omega
  have size : (Number.signAndSize s).2.length ≤ s.toList.length := by
    refine Nat.le_trans ?_ (trimmed s.toList)
    unfold Number.signAndSize
    split
    · next same => simp [same]
    · next same => simp [same]
    · exact Nat.le_refl _
  unfold Number.beyondLimit? at beyond
  dsimp only at beyond
  split at beyond
  · next long => exact Nat.lt_of_lt_of_le long (Nat.le_trans (List.takeWhile_prefix _).length_le size)
  · cases beyond

/-- A number of a version, somewhere behind the name of its directive. -/
theorem versionNumber_settles {start : List Char} (directed : start <:+ whole) (named : "YAML".toList <+: start)
    (behind : c.Within start) : Settles (.of whole) (GoesOn start) (versionNumber c) := by
  unfold versionNumber
  dsimp only
  split
  · next beyond =>
    have long := limit_lt_length beyond
    rw [String.toList_ofList] at long
    exact .failed (.tooManyDigits directed named behind long)
  · exact .ok (behind.skip _)
  · exact .malformed

theorem directive_settles (inside : c.Within whole) :
    Settles (.of whole) (fun r : Directive × Cursor × Cursor => r.2.2.Within whole) (directive c) := by
  have named := inside.next.skip (c.next.takeWhile isNameChar).length
  unfold directive
  dsimp only
  split
  · exact .malformed
  · split
    · next version =>
      have same : c.next.takeWhile isNameChar = "YAML".toList := eq_of_beq version
      have spelled : "YAML".toList <+: c.next.rest := same ▸ List.takeWhile_prefix _
      have behind : (c.next.skip (c.next.takeWhile isNameChar).length).Within c.next.rest :=
        Cursor.Within.skip (List.suffix_refl _) _
      refine (versionNumber_settles inside.next spelled behind.skipSpaces).bind fun major first => ?_
      split
      · exact .malformed
      · refine (versionNumber_settles inside.next spelled first.next).bind fun minor second => ?_
        split
        · exact .malformed
        · exact (ignoredLine_settles (second.trans inside.next)).bind fun after last => .ok last
    · split
      · refine (tagHandle_settles named.skipSpaces).bind fun handle first => ?_
        split
        · exact .malformed
        · refine (nonemptyTagText_settles first.skipSpaces).bind fun expansion second => ?_
          split
          · exact .malformed
          · exact (ignoredLine_settles second).bind fun after last => .ok last
      · exact (ignoredLine_settles (named.skipWhile _)).bind fun after last => .ok last

theorem anchorName_settles (inside : c.Within whole) : Scans whole (anchorName c) := by
  unfold anchorName
  dsimp only
  split
  · exact .malformed
  · exact .ok (inside.next.skip _)

theorem tag_settles (inside : c.Within whole) :
    Settles (.of whole) (fun r : Option String × String × Cursor => r.2.2.Within whole) (tag c) := by
  have closes : ∀ (handle : Option String) (suffix : String) (c : Cursor), c.Within whole →
      Settles (.of whole) (fun r : Option String × String × Cursor => r.2.2.Within whole)
        (if isSpaceOrEnd c.current then return (handle, suffix, c) else .error .malformed) := by
    intro handle suffix c onward
    split
    · exact .ok onward
    · exact .malformed
  unfold tag
  dsimp only
  split
  · refine (nonemptyTagText_settles (inside.skip 2)).bind fun suffix first => ?_
    split
    · exact closes _ _ _ first.next
    · exact .malformed
  · split
    · exact closes _ _ _ inside.next
    · split
      · refine (tagHandle_settles inside).bind fun handle first => ?_
        exact (nonemptyTagText_settles first).bind fun suffix second => closes _ _ _ second
      · exact (nonemptyTagText_settles inside.next).bind fun suffix first => closes _ _ _ first

/-! ### Tokens -/

theorem dropKeyPlace_settles (inside : l.Within whole) : Stays whole l.dropKeyPlace := by
  unfold dropKeyPlace
  split
  · split
    · exact .malformed
    · exact .ok ⟨inside.ahead, inside.behind⟩
  · exact .ok inside

theorem dropStaleKeyPlaces_settles (inside : l.Within whole) : Stays whole l.dropStaleKeyPlaces := by
  unfold dropStaleKeyPlaces
  dsimp only
  split
  · exact .malformed
  · exact .ok ⟨inside.ahead, inside.behind⟩

theorem noteKeyPlace_settles (inside : l.Within whole) : Stays whole l.noteKeyPlace := by
  unfold noteKeyPlace
  split
  · exact (dropKeyPlace_settles inside).bind fun l' after => .ok ⟨after.ahead, after.behind⟩
  · exact .ok inside

/-- A new token is no plain scalar, or one without a line end behind it. -/
theorem Within.emit (inside : l.Within whole) {kind : TokenKind} {stop : Position} {after : Cursor}
    (ahead : after.Within whole) (ends : Token.EndsInLine ⟨kind, l.cursor.position, stop⟩) :
    (l.emit kind stop after).Within whole := by
  refine ⟨ahead, fun t member => ?_⟩
  rcases Array.mem_push.mp member with before | rfl
  · exact inside.behind t before
  · exact ends

theorem Within.take (inside : l.Within whole) (kind : TokenKind) (width : Nat)
    (other : ∀ text, kind ≠ .scalar text true) : (l.take kind width).Within whole :=
  inside.emit (inside.ahead.skip width) fun text same => absurd same (other text)

theorem Within.mark (inside : l.Within whole) (kind : TokenKind) (other : ∀ text, kind ≠ .scalar text true) :
    (l.mark kind).Within whole :=
  inside.emit inside.ahead fun text same => absurd same (other text)

theorem close_within (column : Int) (outer : List Int) (inside : l.Within whole) :
    (unindent.close column outer l).Within whole := by
  induction outer generalizing l with
  | nil => exact inside
  | cons indent rest ih =>
    have ended := inside.mark .blockEnd nofun
    rw [unindent.close]
    split
    · exact ih ⟨ended.ahead, ended.behind⟩
    · exact inside

theorem unindent_within (column : Int) (inside : l.Within whole) : (l.unindent column).Within whole := by
  unfold unindent
  split
  · exact inside
  · exact close_within column _ inside

theorem openBlock_within (kind : TokenKind) (other : ∀ text, kind ≠ .scalar text true)
    (inside : l.Within whole) : (l.openBlock kind).Within whole := by
  have marked := inside.mark kind other
  unfold openBlock
  split
  · exact ⟨marked.ahead, marked.behind⟩
  · exact inside

theorem skipGaps_within (fuel : Nat) (inside : l.Within whole) : (skipGaps fuel l).Within whole := by
  induction fuel generalizing l with
  | zero => exact inside
  | succ fuel ih =>
    have behind : Cursor.Within (if l.cursor.skipSpaces.current == '#' then
        l.cursor.skipSpaces.skipWhile (!isBreakOrEnd ·) else l.cursor.skipSpaces) whole := by
      split
      · exact inside.ahead.skipSpaces.skipWhile _
      · exact inside.ahead.skipSpaces
    rw [skipGaps]
    generalize (if l.cursor.skipSpaces.current == '#' then
      l.cursor.skipSpaces.skipWhile (!isBreakOrEnd ·) else l.cursor.skipSpaces) = c at behind ⊢
    split
    · exact ih ⟨behind.lineBreak, inside.behind⟩
    · exact ⟨behind, inside.behind⟩

theorem endBlocks_settles (inside : l.Within whole) : Stays whole l.endBlocks :=
  (dropKeyPlace_settles (unindent_within _ inside)).bind fun _ after => .ok ⟨after.ahead, after.behind⟩

theorem keyStart_settles (inside : l.Within whole) : Stays whole l.keyStart :=
  (noteKeyPlace_settles inside).bind fun _ after => .ok ⟨after.ahead, after.behind⟩

theorem openFlow_settles (kind : TokenKind) (other : ∀ text, kind ≠ .scalar text true)
    (inside : l.Within whole) : Stays whole (l.openFlow kind) := by
  refine (noteKeyPlace_settles inside).bind fun l' after => .ok (Within.take ?_ kind 1 other)
  exact ⟨after.ahead, after.behind⟩

theorem closeFlow_settles (kind : TokenKind) (other : ∀ text, kind ≠ .scalar text true)
    (inside : l.Within whole) : Stays whole (l.closeFlow kind) := by
  unfold closeFlow
  split
  · exact .malformed
  · refine (dropKeyPlace_settles inside).bind fun l' after => .ok (Within.take ?_ kind 1 other)
    exact ⟨after.ahead, after.behind⟩

theorem blockIndicator_settles (collection kind : TokenKind) (keyAfter : Bool)
    (other : ∀ text, collection ≠ .scalar text true) (other' : ∀ text, kind ≠ .scalar text true)
    (inside : l.Within whole) : Stays whole (l.blockIndicator collection kind keyAfter) := by
  unfold blockIndicator
  split
  · exact .malformed
  · have opened : (if l.depth == 0 then l.openBlock collection else l).Within whole := by
      split
      · exact openBlock_within collection other inside
      · exact inside
    generalize (if l.depth == 0 then l.openBlock collection else l) = l₁ at opened ⊢
    refine Settles.bind (dropKeyPlace_settles (l := { l₁ with keyAllowed := keyAfter })
      ⟨opened.ahead, opened.behind⟩) ?_
    exact fun l' after => .ok (after.take kind 1 other')

/-- Tokens may be put between others. -/
theorem endsInLine_insert {tokens : Array Token} (old : ∀ t ∈ tokens, t.EndsInLine) {inserted : List Token}
    (new : ∀ t ∈ inserted, t.EndsInLine) (i j k n : Nat) :
    ∀ t ∈ tokens.extract i j ++ inserted.toArray ++ tokens.extract k n, t.EndsInLine := by
  have kept : ∀ {i j : Nat} {t : Token}, t ∈ tokens.extract i j → t.EndsInLine := by
    intro i j t member
    obtain ⟨place, bound, rfl⟩ := Array.mem_iff_getElem.mp member
    rw [Array.getElem_extract]
    exact old _ (Array.getElem_mem _)
  intro t member
  rcases Array.mem_append.mp member with member | later
  · rcases Array.mem_append.mp member with earlier | between
    · exact kept earlier
    · exact new t (by simpa using between)
  · exact kept later

theorem valueIndicator_settles (inside : l.Within whole) : Stays whole l.valueIndicator := by
  unfold valueIndicator
  split
  · refine .ok (Within.take ?_ .value 1 nofun)
    dsimp only
    split
    · exact ⟨inside.ahead, endsInLine_insert inside.behind (by simp [Token.EndsInLine]) _ _ _ _⟩
    · exact ⟨inside.ahead, endsInLine_insert inside.behind (by simp [Token.EndsInLine]) _ _ _ _⟩
  · exact blockIndicator_settles _ _ _ nofun nofun inside

theorem quotedToken_settles (inside : l.Within whole) : Stays whole l.quotedToken :=
  (keyStart_settles inside).bind fun _ first =>
    (Scalars.quotedScalar_settles first.ahead).bind fun _ second =>
      .ok (first.emit second (Token.endsInLine_of_quoted _ _ _))

theorem blockToken_settles (inside : l.Within whole) : Stays whole l.blockToken := by
  unfold blockToken
  refine Settles.bind (dropKeyPlace_settles (l := { l with keyAllowed := true })
    ⟨inside.ahead, inside.behind⟩) ?_
  intro l' first
  exact (Scalars.blockScalar_settles _ first.ahead).bind fun r second =>
    .ok (first.emit second (Token.endsInLine_of_quoted _ _ _))

theorem plainToken_settles (inside : l.Within whole) : Stays whole l.plainToken := by
  refine (keyStart_settles inside).bind fun l' first => ?_
  have second := Scalars.plainScalar_within (l'.depth != 0) (l'.indent + 1) first.ahead
  have ends := Scalars.plainScalar_endsInLine (l'.depth != 0) (l'.indent + 1) l'.cursor
  generalize Scalars.plainScalar (l'.depth != 0) (l'.indent + 1) l'.cursor = r at second ends ⊢
  have emitted : (l'.emit (.scalar (String.ofList r.1.text) true) r.1.stop r.2).Within whole := by
    refine first.emit second ?_
    rintro text ⟨⟩
    rwa [String.toList_ofList]
  exact .ok ⟨emitted.ahead, emitted.behind⟩

theorem step_settles (inside : l.Within whole) : Stays whole l.step := by
  unfold step
  refine .ite (fun _ => ?_) fun _ => ?_
  · refine (endBlocks_settles inside).bind fun l' first => ?_
    exact (directive_settles first.ahead).bind fun r second => .ok (first.emit second nofun)
  refine .ite (fun _ => ?_) fun _ => ?_
  · exact (endBlocks_settles inside).bind fun l' after => .ok (after.take _ 3 nofun)
  refine .ite (fun _ => ?_) fun _ => ?_
  · exact (endBlocks_settles inside).bind fun l' after => .ok (after.take _ 3 nofun)
  refine .ite (fun _ => openFlow_settles _ nofun inside) fun _ => ?_
  refine .ite (fun _ => openFlow_settles _ nofun inside) fun _ => ?_
  refine .ite (fun _ => closeFlow_settles _ nofun inside) fun _ => ?_
  refine .ite (fun _ => closeFlow_settles _ nofun inside) fun _ => ?_
  refine .ite (fun _ => ?_) fun _ => ?_
  · refine Settles.bind (dropKeyPlace_settles (l := { l with keyAllowed := true })
      ⟨inside.ahead, inside.behind⟩) ?_
    exact fun l' after => .ok (after.take _ 1 nofun)
  refine .ite (fun _ => blockIndicator_settles _ _ _ nofun nofun inside) fun _ => ?_
  refine .ite (fun _ => blockIndicator_settles _ _ _ nofun nofun inside) fun _ => ?_
  refine .ite (fun _ => valueIndicator_settles inside) fun _ => ?_
  refine .ite (fun _ => ?_) fun _ => ?_
  · refine (keyStart_settles inside).bind fun l' first => ?_
    exact (anchorName_settles first.ahead).bind fun r second => .ok (first.emit second nofun)
  refine .ite (fun _ => ?_) fun _ => ?_
  · refine (keyStart_settles inside).bind fun l' first => ?_
    exact (anchorName_settles first.ahead).bind fun r second => .ok (first.emit second nofun)
  refine .ite (fun _ => ?_) fun _ => ?_
  · refine (keyStart_settles inside).bind fun l' first => ?_
    exact (tag_settles first.ahead).bind fun r second => .ok (first.emit second nofun)
  refine .ite (fun _ => blockToken_settles inside) fun _ => ?_
  refine .ite (fun _ => quotedToken_settles inside) fun _ => ?_
  exact .ite (fun _ => plainToken_settles inside) fun _ => .malformed

/-- A fault is one that the text causes, and the tokens in front of it end without a line end. -/
def Fair (whole : List Char) (tokens : Array Token) (fault : Option YamlError) : Prop :=
  (∀ e ∈ fault, Causes whole e) ∧ ∀ t ∈ tokens, t.EndsInLine

/-- What a round leads to is as it should be. -/
def Round.Within (whole : List Char) : Round → Prop
  | .onward l => l.Within whole
  | .ended tokens fault => Fair whole tokens fault

theorem fair_of_causes {e : YamlError} (caused : Causes whole e) (inside : l.Within whole) :
    (Round.ended l.tokens (some e)).Within whole :=
  ⟨by simpa using caused, inside.behind⟩

theorem round_within (inside : l.Within whole) : l.round.Within whole := by
  have skipped := skipGaps_within (l.cursor.rest.length + 1) inside
  unfold round
  dsimp only
  have fresh := dropStaleKeyPlaces_settles skipped
  generalize (skipGaps (l.cursor.rest.length + 1) l).dropStaleKeyPlaces = dropped at fresh ⊢
  cases fresh with
  | failed caused => exact fair_of_causes caused skipped
  | @ok l₂ here =>
    have flat := unindent_within l₂.cursor.column here
    dsimp only
    split
    · have ended := endBlocks_settles flat
      generalize (l₂.unindent l₂.cursor.column).endBlocks = last at ended ⊢
      cases ended with
      | failed caused => exact fair_of_causes caused flat
      | ok after => exact ⟨by simp, (after.mark .streamEnd nofun).behind⟩
    · have stepped := step_settles flat
      generalize (l₂.unindent l₂.cursor.column).step = next at stepped ⊢
      cases stepped with
      | failed caused => exact fair_of_causes caused flat
      | ok onward => exact onward

theorem run_fair (fuel : Nat) (inside : l.Within whole) : Fair whole (run fuel l).1 (run fuel l).2 := by
  induction fuel generalizing l with
  | zero => exact fair_of_causes .malformed inside
  | succ fuel ih =>
    have here := round_within inside
    rw [run]
    cases goes : l.round with
    | onward next =>
      rw [goes] at here
      exact ih here
    | ended tokens found =>
      rw [goes] at here
      exact here

end Lexer

/-- A text is scanned to its end, or up to a fault that it causes itself. -/
theorem Token.scan_fair (text : String) : Lexer.Fair text.toList (Token.scan text).1 (Token.scan text).2 := by
  have starts : (Cursor.ofText text).Within text.toList := List.suffix_rfl
  unfold Token.scan
  split
  · refine Lexer.run_fair _ ?_
    split
    · exact ⟨starts.next, by simp [Lexer.ofText]⟩
    · exact ⟨starts, by simp [Lexer.ofText]⟩
  · exact ⟨by simpa using Causes.malformed, by simp⟩

end DocLint.Yaml
