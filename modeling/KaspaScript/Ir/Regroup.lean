import KaspaScript.Ir.Pieces

namespace KaspaScript

mutual

/-- No node of the expression is printed in parentheses. -/
def Expr.Unenclosed : Expr → Prop
  | .array elements _ => allUnenclosed elements
  | .unary _ e _ => 7 ≤ e.level ∧ e.Unenclosed
  | .binary left op right _ =>
      (binaryPrecedence op ≤ left.level ∧ left.Unenclosed) ∧
        binaryPrecedence op + 1 ≤ right.level ∧ right.Unenclosed
  | .call callee args _ => (8 ≤ callee.level ∧ callee.Unenclosed) ∧ allUnenclosed args
  | .field object _ _ => 8 ≤ object.level ∧ object.Unenclosed
  | .ident _ | .integer _ _ | .string _ _ | .bool _ _ => True

def allUnenclosed : List Expr → Prop
  | [] => True
  | e :: rest => e.Unenclosed ∧ allUnenclosed rest

end

theorem allUnenclosed_iff {es : List Expr} : allUnenclosed es ↔ ∀ e ∈ es, e.Unenclosed := by
  induction es with
  | nil => simp [allUnenclosed]
  | cons e es ih => simp [allUnenclosed, ih]

theorem enclosed_of_le {needed level : Nat} (h : needed ≤ level) (tokens : List TokenKind) :
    enclosed needed level tokens = tokens := by
  simp [enclosed, Nat.not_lt_of_ge h]

theorem printedList_of_unenclosed {es : List Expr}
    (h : ∀ e ∈ es, e.printed = e.pieces.map Piece.kind) :
    printedList es = (piecesList es).map Piece.kind := by
  induction es with
  | nil => rfl
  | cons e es ih =>
    have ih := ih fun e' h' => h e' (List.mem_cons_of_mem _ h')
    rw [printedList, piecesList, h e List.mem_cons_self, ih]
    cases es <;> simp [Piece.kind]

/-- Without parentheses the printed tokens are those of the pieces. -/
theorem printed_of_unenclosed {e : Expr} (h : e.Unenclosed) :
    e.printed = e.pieces.map Piece.kind := by
  induction e using Expr.induct with
  | ident id => rfl
  | integer value span | string value span | bool value span => rfl
  | array elements span ih =>
    rw [Expr.Unenclosed, allUnenclosed_iff] at h
    have hes := printedList_of_unenclosed fun e he => ih e he (h e he)
    simp [Expr.printed, Expr.pieces, hes, Piece.kind]
  | unary op e span ih =>
    simp [Expr.printed, Expr.pieces, enclosed_of_le h.1, ih h.2, Piece.kind]
  | binary left op right span ihl ihr =>
    simp [Expr.printed, Expr.pieces, enclosed_of_le h.1.1, enclosed_of_le h.2.1, ihl h.1.2,
      ihr h.2.2, Piece.kind]
  | call callee args span ihc iha =>
    have hargs := printedList_of_unenclosed fun e he => iha e he (allUnenclosed_iff.mp h.2 e he)
    simp [Expr.printed, Expr.pieces, enclosed_of_le h.1.1, ihc h.1.2, hargs, Piece.kind]
  | field object field span ih =>
    simp [Expr.printed, Expr.pieces, enclosed_of_le h.1, ih h.2, Piece.kind]

theorem length_le_enclosed (needed level : Nat) (tokens : List TokenKind) :
    tokens.length ≤ (enclosed needed level tokens).length := by
  simp only [enclosed]
  split_ifs
  · simp only [List.length_append, List.length_cons]
    omega
  · exact Nat.le_refl _

theorem le_of_length_enclosed {needed level : Nat} (tokens : List TokenKind)
    (h : (enclosed needed level tokens).length ≤ tokens.length) : needed ≤ level := by
  simp only [enclosed] at h
  split_ifs at h with hlevel
  · simp only [List.length_append, List.length_cons] at h
    omega
  · exact Nat.le_of_not_lt hlevel

theorem length_printedList {es : List Expr}
    (h : ∀ e ∈ es, e.pieces.length ≤ e.printed.length ∧
      (e.printed.length ≤ e.pieces.length → e.Unenclosed)) :
    (piecesList es).length ≤ (printedList es).length ∧
      ((printedList es).length ≤ (piecesList es).length → allUnenclosed es) := by
  induction es with
  | nil => simp [piecesList, printedList, allUnenclosed]
  | cons e es ih =>
    obtain ⟨hle, htight⟩ := h e List.mem_cons_self
    obtain ⟨hle', htight'⟩ := ih fun e' h' => h e' (List.mem_cons_of_mem _ h')
    rw [piecesList, printedList, allUnenclosed, List.length_append, List.length_append]
    cases es with
    | nil =>
      simp only [List.isEmpty_nil, if_true, List.length_nil, allUnenclosed, and_true]
      exact ⟨by omega, fun hlength => htight (by omega)⟩
    | cons e₂ es =>
      simp only [List.isEmpty_cons, Bool.false_eq_true, if_false, List.length_cons]
      exact ⟨by omega, fun hlength => ⟨htight (by omega), htight' (by omega)⟩⟩

/-- Parentheses only add tokens, so an expression printed with as few tokens as it has pieces is
printed without them. -/
theorem length_printed (e : Expr) : e.pieces.length ≤ e.printed.length ∧
    (e.printed.length ≤ e.pieces.length → e.Unenclosed) := by
  induction e using Expr.induct with
  | ident id => simp [Expr.pieces, Expr.printed, Expr.Unenclosed]
  | integer value span | string value span | bool value span =>
    simp [Expr.pieces, Expr.printed, Expr.Unenclosed]
  | array elements span ih =>
    obtain ⟨hle, htight⟩ := length_printedList ih
    simp only [Expr.pieces, Expr.printed, Expr.Unenclosed, List.length_append, List.length_cons]
    exact ⟨by omega, fun hlength => htight (by omega)⟩
  | unary op e span ih =>
    have henclosed := length_le_enclosed 7 e.level e.printed
    simp only [Expr.pieces, Expr.printed, Expr.Unenclosed, List.length_cons]
    refine ⟨by omega, fun hlength => ⟨le_of_length_enclosed e.printed ?_, ih.2 ?_⟩⟩
    all_goals omega
  | binary left op right span ihl ihr =>
    have hleft := length_le_enclosed (binaryPrecedence op) left.level left.printed
    have hright := length_le_enclosed (binaryPrecedence op + 1) right.level right.printed
    simp only [Expr.pieces, Expr.printed, Expr.Unenclosed, List.length_append, List.length_cons]
    refine ⟨by omega, fun hlength => ⟨⟨le_of_length_enclosed left.printed ?_,
      ihl.2 ?_⟩, le_of_length_enclosed right.printed ?_, ihr.2 ?_⟩⟩
    all_goals omega
  | call callee args span ihc iha =>
    have hcallee := length_le_enclosed 8 callee.level callee.printed
    obtain ⟨hle, htight⟩ := length_printedList iha
    simp only [Expr.pieces, Expr.printed, Expr.Unenclosed, List.length_append, List.length_cons]
    refine ⟨by omega, fun hlength => ⟨⟨le_of_length_enclosed callee.printed ?_,
      ihc.2 ?_⟩, htight ?_⟩⟩
    all_goals omega
  | field object field span ih =>
    have hobject := length_le_enclosed 8 object.level object.printed
    simp only [Expr.pieces, Expr.printed, Expr.Unenclosed, List.length_append, List.length_cons]
    refine ⟨by omega, fun hlength => ⟨le_of_length_enclosed object.printed ?_,
      ih.2 ?_⟩⟩
    all_goals omega

/-! Every rendering is that of an expression without parentheses: the one it reads back as. -/

/-- What ends a rendering goes to its rightmost operand. -/
theorem exists_suffixed (mk : Expr → Expr) (suffix : List Piece)
    (hpieces : ∀ z, (mk z).pieces = z.pieces ++ suffix) (hlevel : ∀ z, (mk z).level = 8)
    (hmk : ∀ z, 8 ≤ z.level → z.Unenclosed → (mk z).Unenclosed) {e : Expr} (h : e.Unenclosed) :
    ∃ y : Expr, y.Unenclosed ∧ y.pieces = e.pieces ++ suffix ∧ min e.level 8 ≤ y.level := by
  induction e using Expr.induct with
  | unary op e span ih =>
    obtain ⟨y, hy, hyp, hyl⟩ := ih h.2
    have he := h.1
    exact ⟨.unary op y span, ⟨by omega, hy⟩, by simp [Expr.pieces, hyp], by simp [Expr.level]⟩
  | binary left op right span ihl ihr =>
    obtain ⟨y, hy, hyp, hyl⟩ := ihr h.2.2
    have hright := h.2.1
    have hop := binaryPrecedence_le op
    exact ⟨.binary left op y span, ⟨h.1, by omega, hy⟩, by simp [Expr.pieces, hyp],
      by simp [Expr.level]⟩
  | _ => exact ⟨mk _, hmk _ (by simp [Expr.level]) h, hpieces _, by simp [hlevel]⟩

/-- A unary operator in front of a rendering goes to its leftmost operand. -/
theorem exists_prefixed (op : UnaryOp) {e : Expr} (h : e.Unenclosed) :
    ∃ y : Expr, y.Unenclosed ∧ y.pieces = .unary op :: e.pieces ∧ min e.level 7 ≤ y.level := by
  induction e using Expr.induct with
  | binary left bop right span ihl ihr =>
    obtain ⟨y, hy, hyp, hyl⟩ := ihl h.1.2
    have hleft := h.1.1
    have hop := binaryPrecedence_le bop
    exact ⟨.binary y bop right span, ⟨⟨by omega, hy⟩, h.2⟩, by simp [Expr.pieces, hyp],
      by simp [Expr.level]⟩
  | _ => exact ⟨.unary op _ ⟨0, 0⟩, ⟨by simp [Expr.level], h⟩, rfl, by simp [Expr.level]⟩

theorem level_binary (left right : Expr) (op : BinaryOp) (span : Span) :
    (Expr.binary left op right span).level = binaryPrecedence op := rfl

theorem binary_of_level {e : Expr} (h : e.level < 7) :
    ∃ left op right span, e = .binary left op right span := by
  cases e <;> simp [Expr.level] at h ⊢

/-- Two renderings with an operator between them are grouped by the loosest operator, the last
one among equals. -/
theorem exists_joined (op : BinaryOp) {a b : Expr} (ha : a.Unenclosed) (hb : b.Unenclosed) :
    ∃ y : Expr, y.Unenclosed ∧ y.pieces = a.pieces ++ .binary op :: b.pieces ∧
      min (min a.level (binaryPrecedence op)) b.level ≤ y.level := by
  induction hsize : a.pieces.length + b.pieces.length using Nat.strong_induction_on
    generalizing a b with
  | _ size ih =>
    subst hsize
    have hop := binaryPrecedence_le op
    by_cases hright : b.level ≤ binaryPrecedence op ∧ b.level ≤ a.level
    · obtain ⟨b₁, s, b₂, span, rfl⟩ := binary_of_level (show b.level < 7 by omega)
      have hb₁ := hb.1.1
      have hsmaller : a.pieces.length + b₁.pieces.length <
          a.pieces.length + (Expr.binary b₁ s b₂ span).pieces.length := by
        simp [Expr.pieces]
      obtain ⟨y, hy, hyp, hyl⟩ := ih _ hsmaller ha hb.1.2 rfl
      simp only [level_binary] at hright
      refine ⟨.binary y s b₂ span, ⟨⟨by omega, hy⟩, hb.2⟩, by simp [Expr.pieces, hyp], ?_⟩
      simp [Expr.level]
    · by_cases hleft : binaryPrecedence op ≤ a.level
      · exact ⟨.binary a op b ⟨0, 0⟩, ⟨⟨hleft, ha⟩, by omega, hb⟩, rfl, by simp [Expr.level]⟩
      · obtain ⟨a₁, q, a₂, span, rfl⟩ := binary_of_level (show a.level < 7 by omega)
        have ha₂ := ha.2.1
        have hsmaller : a₂.pieces.length + b.pieces.length <
            (Expr.binary a₁ q a₂ span).pieces.length + b.pieces.length := by
          simp only [Expr.pieces, List.length_append, List.length_cons]
          omega
        obtain ⟨y, hy, hyp, hyl⟩ := ih _ hsmaller ha.2.2 hb rfl
        simp only [level_binary] at hleft hright
        refine ⟨.binary a₁ q y span, ⟨ha.1, by omega, hy⟩, by simp [Expr.pieces, hyp], ?_⟩
        simp [Expr.level]

/-- Elements with the pieces of others make a list with the pieces of theirs. -/
theorem exists_piecesList {R : Expr → Expr → Prop} {es : List Expr}
    (h : ∀ e ∈ es, ∃ y : Expr, y.pieces = e.pieces ∧ R y e) :
    ∃ ys, piecesList ys = piecesList es ∧ List.Forall₂ R ys es := by
  induction es with
  | nil => exact ⟨[], rfl, .nil⟩
  | cons e es ih =>
    obtain ⟨y, hpieces, hy⟩ := h e List.mem_cons_self
    obtain ⟨ys, hlist, hys⟩ := ih fun e' h' => h e' (List.mem_cons_of_mem _ h')
    refine ⟨y :: ys, ?_, .cons hy hys⟩
    cases hys with
    | nil => simp [piecesList, hpieces]
    | cons hy₂ hys => rw [piecesList_cons, piecesList_cons, hpieces, hlist]

theorem allUnenclosed_of_forall₂ {R : Expr → Expr → Prop} {ys es : List Expr}
    (hR : ∀ y e, R y e → y.Unenclosed) (h : List.Forall₂ R ys es) : allUnenclosed ys := by
  induction h with
  | nil => trivial
  | cons hy _ ih => exact ⟨hR _ _ hy, ih⟩

theorem exists_regrouped (e : Expr) : ∃ y : Expr, y.pieces = e.pieces ∧ y.Unenclosed := by
  induction e using Expr.induct with
  | ident id => exact ⟨.ident id, rfl, trivial⟩
  | integer value span => exact ⟨.integer value span, rfl, trivial⟩
  | string value span => exact ⟨.string value span, rfl, trivial⟩
  | bool value span => exact ⟨.bool value span, rfl, trivial⟩
  | array elements span ih =>
    obtain ⟨ys, hpieces, hys⟩ := exists_piecesList ih
    exact ⟨.array ys span, by simp [Expr.pieces, hpieces],
      allUnenclosed_of_forall₂ (fun _ _ hy => hy) hys⟩
  | unary op e span ih =>
    obtain ⟨z, hpieces, hz⟩ := ih
    obtain ⟨y, hy, hyp, -⟩ := exists_prefixed op hz
    exact ⟨y, by simp [Expr.pieces, hyp, hpieces], hy⟩
  | binary left op right span ihl ihr =>
    obtain ⟨a, hleft, ha⟩ := ihl
    obtain ⟨b, hright, hb⟩ := ihr
    obtain ⟨y, hy, hyp, -⟩ := exists_joined op ha hb
    exact ⟨y, by simp [Expr.pieces, hyp, hleft, hright], hy⟩
  | call callee args span ihc iha =>
    obtain ⟨z, hpieces, hz⟩ := ihc
    obtain ⟨ys, hargs, hys⟩ := exists_piecesList iha
    have hys := allUnenclosed_of_forall₂ (fun _ _ hy => hy) hys
    obtain ⟨y, hy, hyp, -⟩ := exists_suffixed (fun z => .call z ys span)
      (.leftParen :: piecesList ys ++ [.rightParen]) (fun z => by simp [Expr.pieces])
      (fun z => rfl) (fun z hlevel hz => ⟨⟨hlevel, hz⟩, hys⟩) hz
    exact ⟨y, by simp [Expr.pieces, hyp, hpieces, hargs], hy⟩
  | field object field span ih =>
    obtain ⟨z, hpieces, hz⟩ := ih
    obtain ⟨y, hy, hyp, -⟩ := exists_suffixed (fun z => .field z field span)
      [.dot, .name field.name] (fun z => rfl) (fun z => rfl)
      (fun z hlevel hz => ⟨hlevel, hz⟩) hz
    exact ⟨y, by simp [Expr.pieces, hyp, hpieces], hy⟩

end KaspaScript
