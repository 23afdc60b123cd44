import LosslessBasic.Proofs.Lexer.SourcesRespelled
import Mathlib.Data.List.TakeWhile

/-!
# More blank space

Behind whitespace a source may have more of it, or a line continuation. The tokens in front are what
they were: none of them looks at how much blank space there is behind its blanks, not even a date
(`Unseen.of_isMoreBlank`). The tokens behind only stand at other places.
-/

namespace LosslessBasic

open Bytes Ascii

/-- Bytes that make blank space longer: a line continuation, or spaces and tabs. -/
def Bytes.IsMoreBlank (more : Bytes) : Prop :=
  more = [byte '_', lineFeed] ∨ ∀ c ∈ more, c = byte ' ' ∨ c = tab

variable {more q q' u v x y y' : Bytes} {b c : UInt8}

/-! ## Texts up to a blank -/

namespace Cursor

theorem lineBreakWidth_of_not_isLineBreak (hc : isLineBreak c = false) (rest : Bytes) :
    lineBreakWidth (c :: rest) = 0 := by
  refine Nat.eq_zero_of_not_pos fun hpos => ?_
  rw [lineBreakWidth_pos_iff.mp hpos] at hc
  cases hc

/-- A line break is as wide in front of a byte that breaks no line. -/
theorem lineBreakWidth_append (hq : 0 < lineBreakWidth q) (hb : isLineBreak b = false) (v : Bytes) :
    lineBreakWidth (q ++ b :: v) = lineBreakWidth q := by
  have hfeed : (b == lineFeed) = false := by
    rw [isLineBreak, Bool.or_eq_false_iff] at hb
    exact hb.2
  obtain ⟨c, rest, rfl, -⟩ := exists_cons_of_lineBreakWidth_pos hq
  cases rest with
  | nil => simp [lineBreakWidth, hfeed]
  | cons d rest => rfl

end Cursor

namespace Utf8

open Cursor

/-- A text is cut in front of an ASCII byte that breaks no line, and never within a character. -/
theorem IsText.of_append (hascii : b < 0x80) (hbreak : isLineBreak b = false)
    (h : IsText (q ++ b :: v)) :
    IsText q ∧ IsText v := by
  generalize hx : q ++ b :: v = x at h
  -- the byte breaks no line, and it is no part of a wider character, so a text can be divided at it
  induction h generalizing q with
  | nil => exact absurd hx (by simp)
  | byte hascii' hbreak' hrest ih =>
    cases q with
    | nil =>
      obtain ⟨rfl, rfl⟩ := List.cons.inj hx
      exact ⟨.nil, hrest⟩
    | cons c q =>
      obtain ⟨rfl, hrest'⟩ := List.cons.inj hx
      obtain ⟨hq, hv⟩ := ih hrest'
      exact ⟨.byte hascii' hbreak' hq, hv⟩
  | wide hu hy hrest ih =>
    subst hy
    rcases List.append_eq_append_iff.mp hx with ⟨w, rfl, hw⟩ | ⟨w, rfl, hw⟩
    · -- the character would reach to the byte
      cases w with
      | nil =>
        obtain ⟨-, hv⟩ := ih (q := []) hw
        rw [List.append_nil] at hu
        exact ⟨List.append_nil q ▸ .wide hu rfl .nil, hv⟩
      | cons c w =>
        obtain ⟨rfl, -⟩ := List.cons.inj hw
        exact absurd hascii (hu.wide b (List.mem_append_right _ List.mem_cons_self))
    · obtain ⟨hq, hv⟩ := ih hw.symm
      exact ⟨.wide hu rfl hq, hv⟩
  | @lineBreak x hpos hrest ih =>
    subst hx
    have hq : 0 < lineBreakWidth q := by
      cases q with
      | nil =>
        rw [List.nil_append, lineBreakWidth_of_not_isLineBreak hbreak] at hpos
        cases hpos
      | cons c q => exact lineBreakWidth_pos_iff.mpr (lineBreakWidth_pos_iff.mp hpos)
    rw [lineBreakWidth_append hq hbreak,
      List.drop_append_of_le_length (Lexer.lineBreakWidth_le q)] at ih
    obtain ⟨hbehind, hv⟩ := ih rfl
    exact ⟨.lineBreak hq hbehind, hv⟩

end Utf8

/-! ## More behind a blank -/

theorem isBlank_of_isMoreBlank_spaces (h : ∀ c ∈ more, c = byte ' ' ∨ c = tab) :
    ∀ c ∈ more, isBlank c = true := by
  intro c hc
  rcases h c hc with rfl | rfl <;> decide

/-- Blank space in front is told from what is behind it, however much there is. -/
theorem dropWhile_isBlank_append (h : ∀ c ∈ more, isBlank c = true) (v : Bytes) :
    (more ++ v).dropWhile isBlank = v.dropWhile isBlank :=
  List.dropWhile_append_of_pos h

namespace Lexer

theorem inDate_of_isBlank (h : isBlank b = true) : inDate b = true := by
  have hsign : b ≠ byte '#' := by
    rintro rfl
    cases h
  simp [inDate, hsign, (apart_of_isBlank b h).2.2]

/-- A number sign that opens no date opens none when there is more blank space within the text
behind it. -/
theorem octothorpe_of_spaces (hb : isBlank b = true) (hmore : ∀ c ∈ more, c = byte ' ' ∨ c = tab)
    (hupper : q.map upper = q'.map upper) (hq : ∀ c ∈ q, inDate c = true)
    (h : (dateLiteral (q ++ b :: v)).1 = .octothorpe) :
    (dateLiteral (q' ++ b :: (more ++ v))).1 = .octothorpe := by
  have hspace : ∀ c ∈ more, DateText.isSpace c = true := by
    intro c hc
    rcases hmore c hc with rfl | rfl <;> decide
  have hq' : ∀ c ∈ q', inDate c = true := inDate_class.forall_of_map_upper_eq hupper hq
  have hin : ∀ c ∈ more, inDate c = true := fun c hc =>
    inDate_of_isBlank (isBlank_of_isMoreBlank_spaces hmore c hc)
  have halike : DateText.Alike (q ++ b :: v.takeWhile inDate)
      (q' ++ b :: (more ++ v.takeWhile inDate)) :=
    .append hupper (.spaces hb hspace _)
  rw [dateLiteral_eq_ite] at h ⊢
  rw [List.takeWhile_append_of_pos hq, List.dropWhile_append_of_pos hq,
    List.takeWhile_cons_of_pos (inDate_of_isBlank hb),
    List.dropWhile_cons_of_pos (inDate_of_isBlank hb),
    halike.isDate_eq] at h
  rw [List.takeWhile_append_of_pos hq', List.dropWhile_append_of_pos hq',
    List.takeWhile_cons_of_pos (inDate_of_isBlank hb),
    List.dropWhile_cons_of_pos (inDate_of_isBlank hb),
    List.takeWhile_append_of_pos hin, List.dropWhile_append_of_pos hin]
  split at h
  · cases h
  next hdate => rw [if_neg hdate]

/-- A line continuation cuts off a date. -/
theorem octothorpe_of_continuation (hb : isBlank b = true) (hq : ∀ c ∈ q, inDate c = true)
    (v : Bytes) :
    (dateLiteral (q ++ b :: ([byte '_', lineFeed] ++ v))).1 = .octothorpe := by
  have hbehind : (q ++ b :: ([byte '_', lineFeed] ++ v)).dropWhile inDate = lineFeed :: v := by
    rw [List.dropWhile_append_of_pos hq, List.dropWhile_cons_of_pos (inDate_of_isBlank hb)]
    rfl
  rw [dateLiteral_eq_ite, hbehind]
  rfl

end Lexer

/-- What is in front of a blank does not depend on how much blank space there is behind it. -/
theorem Unseen.of_isMoreBlank (hb : isBlank b = true) (hmore : more.IsMoreBlank) (v : Bytes) :
    Unseen (b :: v) (b :: (more ++ v)) where
  blank := hb
  front_eq := rfl
  continuation h := by
    rw [List.dropWhile_cons_of_pos hb] at h ⊢
    rcases hmore with rfl | hspaces
    · rfl
    · rwa [dropWhile_isBlank_append (isBlank_of_isMoreBlank_spaces hspaces)]
  octothorpe hupper hq h := by
    rcases hmore with rfl | hspaces
    · exact Lexer.octothorpe_of_continuation hb
        (Lexer.inDate_class.forall_of_map_upper_eq hupper hq) v
    · exact Lexer.octothorpe_of_spaces hb hspaces hupper hq h

/-- A text told up to where another one stands for it. -/
def Respelling.upTo (y y' : Bytes) : Respelling where
  keepsCase := True
  ends := False
  lineBreak u u' := u = u'
  cut z z' := z = y ∧ z' = y'

namespace Respelling

/-- Two texts that are the same up to a blank. -/
theorem spells_upTo (hq : Utf8.IsText q) (h : Unseen y y') :
    (upTo y y').Spells (q ++ y) (q ++ y') := by
  obtain ⟨b, v, v', hb, rfl, rfl⟩ := h.exists_cons
  have hbreak := (apart_of_isBlank b hb).2.2
  induction hq with
  | nil => exact .cut ⟨rfl, rfl⟩ h
  | byte hascii hbreak _ ih => exact .byte hascii hbreak rfl (fun _ => rfl) ih
  | wide hu hy _ ih =>
    subst hy
    exact .wide hu (List.append_assoc ..) (List.append_assoc ..) ih
  | @lineBreak x hpos _ ih =>
    have hle := Lexer.lineBreakWidth_le x
    refine .lineBreak ?_ ?_ ?_ ?_ <;>
      simp only [Cursor.lineBreakWidth_append hpos hbreak, hpos, List.take_append_of_le_length hle,
        List.drop_append_of_le_length hle]
    · rfl
    · exact ih

/-- What is in front of the blank is as long in both texts. -/
theorem Spells.length_upTo (h : (upTo y y').Spells x x') :
    x.length + y'.length = x'.length + y.length := by
  induction h with
  | nil h => exact h.elim
  | cut h =>
    obtain ⟨rfl, rfl⟩ := h
    exact Nat.add_comm _ _
  | byte _ _ _ _ _ ih =>
    rw [List.length_cons, List.length_cons]
    omega
  | wide _ hx hx' _ ih =>
    rw [hx, hx', List.length_append, List.length_append]
    omega
  | @lineBreak x x' _ _ hbreak _ ih =>
    have hwidth : Cursor.lineBreakWidth x = Cursor.lineBreakWidth x' := by
      have hlength := congrArg List.length (hbreak : x.take _ = x'.take _)
      rwa [List.length_take, List.length_take, Nat.min_eq_left (Lexer.lineBreakWidth_le x),
        Nat.min_eq_left (Lexer.lineBreakWidth_le x')] at hlength
    have hle := Lexer.lineBreakWidth_le x
    have hle' := Lexer.lineBreakWidth_le x'
    rw [List.length_drop, List.length_drop] at ih
    omega

end Respelling

/-- Two tokens of one kind with one text. -/
structure Token.SameText (t t' : Token) : Prop where
  kind : t'.kind = t.kind
  text : t'.text = t.text

namespace Lexer

variable {file : UInt32} {p : Position} {ts us : List Token} {t w : Token}

/-- Where a text stands does not matter to what its tokens are. -/
theorem sameText_tokensFrom (file : UInt32) (within : Nat) (p p' : Position) (x : Bytes) :
    List.Forall₂ Token.SameText (tokensFrom file within p x) (tokensFrom file within p' x) := by
  induction x generalizing within p p' with
  | nil => cases within <;> exact .cons ⟨rfl, rfl⟩ .nil
  | cons c rest ih =>
    cases within with
    | succ k => exact ih k _ _
    | zero => exact .cons ⟨rfl, rfl⟩ (ih _ _ _)

/-- From a token on, the tokens are those of the text from there on. -/
theorem exists_tokensFrom_eq (h : tokensFrom file 0 p x = ts ++ t :: us) :
    ∃ p', tokensFrom file 0 p' ((t :: us).flatMap Token.text) = t :: us := by
  induction ts generalizing p x with
  | nil =>
    have htexts := texts_tokensFrom file 0 p x
    rw [h, List.nil_append, List.drop_zero] at htexts
    exact ⟨p, by rw [htexts, h, List.nil_append]⟩
  | cons s ts ih =>
    cases x with
    | nil => cases ts <;> cases (List.cons.inj h).2
    | cons c rest =>
      rw [tokensFrom_cons] at h
      exact ih (List.cons.inj h).2

/-- Two texts that are the same up to a blank behind some tokens have these tokens. -/
theorem exists_tokensFrom_upTo
    (h : (Respelling.upTo (b :: v) y').Spells (ts.flatMap Token.text ++ (u ++ b :: v))
      (ts.flatMap Token.text ++ (u ++ y')))
    (htokens : tokensFrom file 0 p (ts.flatMap Token.text ++ (u ++ b :: v)) = ts ++ t :: us)
    (p' : Position) :
    ∃ ts' q', tokensFrom file 0 p' (ts.flatMap Token.text ++ (u ++ y')) =
        ts' ++ tokensFrom file 0 q' (u ++ y') ∧
      List.Forall₂ Token.SameText ts ts' := by
  induction ts generalizing p p' with
  | nil => exact ⟨[], p', rfl, .nil⟩
  | cons s ts ih =>
    rw [List.flatMap_cons, List.append_assoc] at h htokens ⊢
    rw [List.append_assoc] at h
    generalize hx : s.text ++ (ts.flatMap Token.text ++ (u ++ b :: v)) = x at h htokens
    cases x with
    | nil => cases ts <;> cases (List.cons.inj htokens).2
    | cons c rest =>
      rw [tokensFrom_cons] at htokens
      obtain ⟨rfl, hrest⟩ := List.cons.inj htokens
      generalize hn : (scan c rest).2 - 1 = n at hrest
      have htext : (tokenAt file p c rest).text = c :: rest.take n := by rw [← hn]; rfl
      rw [htext, List.cons_append] at h hx ⊢
      have hsplit : rest.take n ++ (ts.flatMap Token.text ++ (u ++ b :: v)) = rest :=
        (List.cons.inj hx).2
      -- the token ends in front of the blank, so it has all the bytes it takes
      have hlength : (rest.take n).length = n := by
        have hrest := congrArg List.length hsplit
        simp only [List.length_append, List.length_cons, List.length_take] at hrest ⊢
        omega
      have hwidth : (scan c rest).2 = n + 1 := by
        rw [← hn, Nat.sub_add_cancel (scan_pos c rest)]
      have hpass : ¬ (Respelling.upTo (b :: v) y').Passes (c :: rest) (scan c rest).2 := by
        rintro ⟨q, z, z', ⟨rfl, rfl⟩, -, hq, hlt⟩
        have hwhole := congrArg List.length hq
        rw [← hsplit] at hwhole
        simp only [List.length_append, List.length_cons, hlength] at hwhole
        omega
      obtain ⟨hkind, hbehind⟩ := scan_spells h hpass
      generalize hrest' : rest.take n ++ (ts.flatMap Token.text ++ (u ++ y')) =
        rest' at h hkind hbehind ⊢
      have hdrop : rest.drop n = ts.flatMap Token.text ++ (u ++ b :: v) := by
        rw [← hsplit, List.drop_left' hlength]
      have hdrop' : rest'.drop n = ts.flatMap Token.text ++ (u ++ y') := by
        rw [← hrest', List.drop_left' hlength]
      -- what is left of the texts tells that the token has as many bytes in both
      have hwidth' : (scan c rest').2 = n + 1 := by
        have hwhole := h.length_upTo
        have hleft := hbehind.length_upTo
        have hne : (c :: rest').drop (scan c rest').2 ≠ [] := by
          refine fun hnil => ?_
          have hnone := hbehind.eq_nil_iff.mpr hnil
          rw [hwidth, List.drop_succ_cons, hdrop] at hnone
          simp at hnone
        have hlt := List.length_pos_of_ne_nil hne
        have hcount := congrArg List.length hsplit
        simp only [List.length_drop, List.length_cons, List.length_append, hwidth, hlength]
          at hwhole hleft hlt hcount
        omega
      rw [hwidth, hwidth', List.drop_succ_cons, List.drop_succ_cons, hdrop, hdrop'] at hbehind
      rw [hdrop] at hrest
      obtain ⟨ts', q', hts', hsame⟩ := ih hbehind hrest
        ((p'.step c rest'.head?).after ((scan c rest').2 - 1) rest')
      refine ⟨tokenAt file p' c rest' :: ts', q', ?_, .cons ⟨hkind, ?_⟩ hsame⟩
      · rw [tokensFrom_cons, hwidth', Nat.add_sub_cancel, hdrop', List.cons_append, ← hts', hwidth',
          Nat.add_sub_cancel]
      · rw [htext, tokenAt, hwidth', Nat.add_sub_cancel, ← hrest', List.take_left' hlength]

/-! ## Blanks -/

/-- Only a blank starts whitespace. -/
theorem isBlank_of_scan {rest : Bytes} (h : (scan c rest).1 = .trivia .whitespace) :
    isBlank c = true := by
  refine Decidable.byContradiction fun hblank => ?_
  revert h
  unfold scan
  dsimp only
  rw [if_neg hblank]
  split; · rintro ⟨⟩
  split; · rintro ⟨⟩
  split; · rintro ⟨⟩
  split; · rintro ⟨⟩
  split; · rintro ⟨⟩
  split; · rintro ⟨⟩
  split; · rintro ⟨⟩
  split; · rintro ⟨⟩
  split
  · unfold word
    dsimp only
    split
    · rintro ⟨⟩
    · split
      · rintro ⟨⟩
      · split <;> rintro ⟨⟩
  · rintro ⟨⟩

/-- A whitespace token has all the blanks there are. -/
theorem whitespace_inv (h : tokensFrom file 0 p x = w :: us) (hw : w.kind = .trivia .whitespace) :
    (∀ c ∈ w.text, isBlank c = true) ∧ w.text ≠ [] ∧
      isBlank (front (us.flatMap Token.text)) = false ∧
      ∃ q, us = tokensFrom file 0 q (us.flatMap Token.text) := by
  cases x with
  | nil =>
    obtain rfl := (List.cons.inj h).1
    cases hw
  | cons c rest =>
    rw [tokensFrom_cons] at h
    obtain ⟨rfl, rfl⟩ := List.cons.inj h
    have hc := isBlank_of_scan hw
    have hwidth : (scan c rest).2 - 1 = (rest.takeWhile isBlank).length := by
      rw [scan_of_isBlank hc, List.takeWhile_cons_of_pos hc, List.length_cons, Nat.add_sub_cancel]
    have htake : rest.take (rest.takeWhile isBlank).length = rest.takeWhile isBlank :=
      (List.prefix_iff_eq_take.mp (List.takeWhile_prefix _)).symm
    rw [texts_tokensFrom, List.drop_zero, tokenAt, hwidth, htake,
      ← Respelling.Spells.dropWhile_eq_drop]
    refine ⟨List.forall_mem_cons.mpr ⟨hc, fun d hd => List.mem_takeWhile_imp hd⟩,
      List.cons_ne_nil _ _,
      ?_, _, rfl⟩
    have hbehind := List.head?_dropWhile_not isBlank rest
    cases hdrop : rest.dropWhile isBlank with
    | nil => decide
    | cons d more =>
      rw [hdrop] at hbehind
      exact hbehind

/-- Blanks are read as one token. -/
theorem exists_whitespace {blanks : Bytes} (hblanks : ∀ c ∈ blanks, isBlank c = true)
    (hne : blanks ≠ [])
    (hv : isBlank (front v) = false) (file : UInt32) (p : Position) :
    ∃ w q, tokensFrom file 0 p (blanks ++ v) = w :: tokensFrom file 0 q v ∧
      w.kind = .trivia .whitespace := by
  obtain ⟨c, rest, rfl⟩ := List.exists_cons_of_ne_nil hne
  have hc := hblanks c List.mem_cons_self
  have hnone : v.takeWhile isBlank = [] := by
    cases v with
    | nil => rfl
    | cons d v => exact List.takeWhile_cons_of_neg (by simpa [front] using hv)
  have hwidth : (scan c (rest ++ v)).2 - 1 = rest.length := by
    rw [scan_of_isBlank hc, ← List.cons_append, List.takeWhile_append_of_pos hblanks, hnone,
      List.append_nil, List.length_cons, Nat.add_sub_cancel]
  refine ⟨tokenAt file p c (rest ++ v), (p.step c (rest ++ v).head?).after rest.length (rest ++ v),
    ?_, ?_⟩
  · rw [List.cons_append, tokensFrom_cons, hwidth, List.drop_left]
  · rw [kind_tokenAt, scan_of_isBlank hc]

/-- An underscore in front of a line feed is read as a line continuation. -/
theorem exists_lineContinuation (file : UInt32) (p : Position) (v : Bytes) :
    ∃ t q, tokensFrom file 0 p (byte '_' :: lineFeed :: v) = t :: tokensFrom file 0 q v ∧
      t.kind = .trivia .lineContinuation := by
  have hscan : scan (byte '_') (lineFeed :: v) = (.trivia .lineContinuation, 2) := by
    rfl
  refine ⟨tokenAt file p (byte '_') (lineFeed :: v),
    (p.step (byte '_') (some lineFeed)).after 1 (lineFeed :: v), ?_, ?_⟩
  · rw [tokensFrom_cons, hscan]
    rfl
  · rw [kind_tokenAt, hscan]

end Lexer

end LosslessBasic
