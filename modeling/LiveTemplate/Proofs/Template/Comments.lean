import LiveTemplate.Proofs.Template.Cuts
import LiveTemplate.Proofs.Template.Matching

/-!
# Comments

An action that leaves no trace in the tree (`Action.Dropped`) is one that is read as a comment
(`Action.dropped_iff`), since every other directive changes the tree under construction
(`Builder.direct_ne_self`). Its body begins with a comment, and either that is all or the text
behind the comment ends like one (`Directive.ofAction_eq_comment_iff`); so it is one comment unless
text of the second kind follows the first one (`dropped_of_parse`).
-/

namespace LiveTemplate

/-! ## One comment -/

/-- A comment goes from its opening mark to the first closing mark behind it. -/
def IsComment (text : List Char) : Prop :=
  ∃ inside, text = '/' :: '*' :: (inside ++ ['*', '/']) ∧ ¬['*', '/'] <:+: inside

namespace Scan

theorem splitCommentClose?_of_not_infix {inside : List Char} (h : ¬['*', '/'] <:+: inside)
    (rest : List Char) :
    splitCommentClose? (inside ++ '*' :: '/' :: rest) = some (inside ++ ['*', '/'], rest) := by
  induction inside with
  | nil => rfl
  | cons c inside ih =>
    rw [pair_infix_cons_iff, not_or] at h
    have hearly (after : List Char) (hc : c = '*')
        (hafter : inside ++ '*' :: '/' :: rest = '/' :: after) : False := by
      cases inside with
      | nil => cases hafter
      | cons d inside => exact h.1 ⟨hc.symm, congrArg some (List.cons.inj hafter).1⟩
    rw [List.cons_append, splitCommentClose?.eq_3 _ _ hearly, ih h.2]
    rfl

theorem exists_of_splitCommentClose?_eq_some {cs comment after : List Char}
    (h : splitCommentClose? cs = some (comment, after)) :
    ∃ inside, comment = inside ++ ['*', '/'] ∧ ¬['*', '/'] <:+: inside := by
  fun_induction splitCommentClose? cs generalizing comment after with
  | case1 => cases h
  | case2 =>
    cases h
    exact ⟨[], rfl, by simp⟩
  | case3 c rest hearly ih =>
    obtain ⟨⟨others, _⟩, hsplit, ⟨⟩⟩ := Option.map_eq_some_iff.mp h
    obtain ⟨inside, rfl, hinside⟩ := ih hsplit
    refine ⟨c :: inside, rfl, ?_⟩
    rw [pair_infix_cons_iff]
    rintro (⟨rfl, hhead⟩ | hrest)
    · obtain ⟨tail, rfl⟩ := List.head?_eq_some_iff.mp hhead
      exact hearly _ rfl (eq_append_of_splitCommentClose? hsplit)
    · exact hinside hrest

theorem splitCommentClose?_isSome {cs : List Char} (h : ['*', '/'] <:+: cs) :
    (splitCommentClose? cs).isSome = true := by
  fun_induction splitCommentClose? cs with
  | case1 => simp at h
  | case2 => rfl
  | case3 c rest hearly ih =>
    rw [Option.isSome_map]
    rcases pair_infix_cons_iff.mp h with ⟨rfl, hhead⟩ | hrest
    · obtain ⟨tail, rfl⟩ := List.head?_eq_some_iff.mp hhead
      exact absurd rfl (hearly tail rfl)
    · exact ih hrest

end Scan

/-- A text begins with one comment at most. -/
theorem IsComment.append_inj {comment other rest more : List Char} (hc : IsComment comment)
    (ho : IsComment other) (h : comment ++ rest = other ++ more) :
    comment = other ∧ rest = more := by
  obtain ⟨inside, rfl, hinside⟩ := hc
  obtain ⟨within, rfl, hwithin⟩ := ho
  have htail : inside ++ '*' :: '/' :: rest = within ++ '*' :: '/' :: more := by simpa using h
  have hsplit := Scan.splitCommentClose?_of_not_infix hinside rest
  rw [htail, Scan.splitCommentClose?_of_not_infix hwithin more] at hsplit
  simp only [Option.some.injEq, Prod.mk.injEq] at hsplit
  exact ⟨by rw [hsplit.1], hsplit.2.symm⟩

/-- A text that begins and ends like a comment begins with one, and what follows the comment, if
anything does, ends like a comment. -/
theorem exists_comment_append {more : List Char} (h : ['*', '/'] <:+ more) :
    ∃ comment rest, IsComment comment ∧ '/' :: '*' :: more = comment ++ rest ∧
      (rest = [] ∨ ['*', '/'] <:+ rest) := by
  obtain ⟨⟨closed, rest⟩, hsplit⟩ := Option.isSome_iff_exists.mp
    (Scan.splitCommentClose?_isSome h.isInfix)
  obtain ⟨inside, rfl, hinside⟩ := Scan.exists_of_splitCommentClose?_eq_some hsplit
  have hmore := Scan.eq_append_of_splitCommentClose? hsplit
  refine ⟨_, rest, ⟨inside, rfl, hinside⟩, by simp [hmore], ?_⟩
  match rest with
  | [] => exact .inl rfl
  | [c] =>
    -- The closing marks would share the slash of the first one.
    obtain ⟨lead, rfl⟩ := h
    have hend : lead ++ ['*', '/'] = (inside ++ ['*']) ++ ['/', c] := by simpa using hmore
    cases (List.append_inj' hend rfl).2
  | c :: d :: rest =>
    have hrest : c :: d :: rest <:+ more := hmore ▸ List.suffix_append _ _
    exact .inr (List.suffix_of_suffix_length_le h hrest (Nat.le_add_left 2 _))

/-! ## Actions that are comments -/

theorem Action.closesComment_iff {action : Action} :
    action.closesComment = true ↔ 4 ≤ action.body.length ∧ ['*', '/'] <:+ action.body := by
  simp [closesComment]

theorem Action.opensComment_iff {action : Action} :
    action.opensComment = true ↔ ['/', '*'] <+: action.body :=
  List.isPrefixOf_iff_prefix

namespace Directive

theorem ofAction_eq_comment {action : Action} :
    ofAction action = .ok .comment ↔
      action.opensComment = true ∧ action.closesComment = true := by
  rw [ofAction]
  split
  · rename_i hopen
    split <;> simp_all
  · rename_i hopen
    constructor
    · intro h
      obtain ⟨lexemes, -, hread⟩ := bind_eq_ok.mp h
      cases formed_of_ofLexemes hread
    · exact fun h => absurd h.1 hopen

/-- An action is read as a comment if it begins with one and anything behind that ends like one. -/
theorem ofAction_eq_comment_iff {action : Action} :
    ofAction action = .ok .comment ↔
      ∃ comment rest, IsComment comment ∧ action.body = comment ++ rest ∧
        (rest = [] ∨ ['*', '/'] <:+ rest) := by
  rw [ofAction_eq_comment, Action.opensComment_iff, Action.closesComment_iff]
  constructor
  · rintro ⟨⟨more, hbody⟩, hlength, hclose⟩
    rw [← hbody] at hlength hclose ⊢
    have hmore : more <:+ ['/', '*'] ++ more := List.suffix_append _ _
    have htwo : 2 ≤ more.length := by simpa using hlength
    exact exists_comment_append (List.suffix_of_suffix_length_le hclose hmore htwo)
  · rintro ⟨comment, rest, ⟨inside, rfl, -⟩, hbody, hrest⟩
    rw [hbody]
    refine ⟨⟨inside ++ ['*', '/'] ++ rest, by simp⟩, by simp; omega, ?_⟩
    rcases hrest with rfl | hrest
    · exact ⟨'/' :: '*' :: inside, by simp⟩
    · exact hrest.trans (List.suffix_append _ _)

end Directive

/-! ## Actions that leave no trace -/

namespace OpenConstruct

theorem add_ne_self (opened : OpenConstruct) (node : Node) : opened.add node ≠ opened := by
  obtain ⟨head, span, body, otherwise, chained⟩ := opened
  cases otherwise <;> simp [add]

end OpenConstruct

theorem length_of_closeChain? {stop : Span} {last nodes : List Node}
    {opened outer : List OpenConstruct} (h : closeChain? stop last opened = some (nodes, outer)) :
    outer.length < opened.length := by
  induction opened generalizing last with
  | nil => cases h
  | cons innermost rest ih =>
    rw [closeChain?] at h
    split at h
    · exact Nat.lt_succ_of_lt (ih h)
    · cases h
      exact Nat.lt_succ_self _

namespace Builder

theorem add_ne_self (builder : Builder) (node : Node) : builder.add node ≠ builder := by
  obtain ⟨root, opened⟩ := builder
  cases opened with
  | nil => simp [add]
  | cons innermost outer => simp [add, innermost.add_ne_self]

theorem length_opened_foldl_add (nodes : List Node) (builder : Builder) :
    (nodes.foldl add builder).opened.length = builder.opened.length := by
  obtain ⟨root, opened⟩ := builder
  cases opened with
  | nil => rw [foldl_add_top]
  | cons innermost outer => rw [foldl_add_opened]; rfl

/-- An `end` closes a construct at least. -/
theorem length_opened_of_close {builder after : Builder} {span : Span}
    (h : builder.close span = .ok after) : after.opened.length < builder.opened.length := by
  rw [close] at h
  split at h
  · cases h
  · rename_i nodes outer hclose
    cases h
    rw [length_opened_foldl_add]
    exact length_of_closeChain? hclose

/-- Everything but a comment changes the tree under construction. -/
theorem direct_ne_self {directive : Directive} (h : directive ≠ .comment) (builder : Builder)
    (span : Span) : builder.direct directive span ≠ .ok builder := by
  intro hdirect
  cases directive with
  | comment => exact h rfl
  | print pipeline => exact builder.add_ne_self _ (Except.ok.inj hdirect)
  | invoke name argument => exact builder.add_ne_self _ (Except.ok.inj hdirect)
  | opener head =>
    rw [direct, opener] at hdirect
    split at hdirect
    · cases hdirect
    · have hopened := congrArg Builder.opened (Except.ok.inj hdirect)
      exact List.cons_ne_self _ _ hopened
  | otherwise =>
    obtain ⟨root, kind, head, start, first, chained, outer, hbefore, hafter⟩ :=
      otherwise_eq_ok hdirect
    cases hbefore.symm.trans hafter
  | chain kind pipeline =>
    obtain ⟨root, head, start, first, chained, outer, hbefore, hafter⟩ := chain_eq_ok hdirect
    have hlength := congrArg (fun builder => builder.opened.length) (hbefore.symm.trans hafter)
    simp at hlength
  | close => exact Nat.lt_irrefl _ (length_opened_of_close hdirect)

end Builder

namespace Action

/-- An action that can be read and leaves every tree under construction as it is. -/
def Dropped (action : Action) : Prop :=
  ∃ directive, Directive.ofAction action = .ok directive ∧
    ∀ builder : Builder, builder.direct directive action.span = .ok builder

theorem dropped_iff {action : Action} :
    action.Dropped ↔ Directive.ofAction action = .ok .comment := by
  constructor
  · rintro ⟨directive, hread, hsame⟩
    by_cases hd : directive = .comment
    · rw [hread, hd]
    · exact absurd (hsame .start) (Builder.direct_ne_self hd _ _)
  · exact fun hread => ⟨.comment, hread, fun _ => rfl⟩

end Action

/-- The actions of a template that are dropped are those whose bodies begin like a comment. The body
then begins with a comment, and what may follow it ends like a comment; so all dropped actions are
one comment each unless there is such text behind a comment. -/
theorem dropped_of_parse {source : String} {nodes : List Node} (h : parse source = .ok nodes)
    {gap : Gap} {action : Action} (hm : (gap, action) ∈ (Scan.ofSource source.toList).actions) :
    (action.Dropped ↔ ['/', '*'] <+: action.body) ∧
      (action.Dropped ↔ ∃ comment rest, IsComment comment ∧ action.body = comment ++ rest ∧
        (rest = [] ∨ ['*', '/'] <:+ rest)) ∧
      ((action.Dropped → IsComment action.body) ↔
        ∀ comment rest, IsComment comment → action.body = comment ++ rest →
          ¬['*', '/'] <:+ rest) := by
  have hsplit := Action.dropped_iff.trans (@Directive.ofAction_eq_comment_iff action)
  refine ⟨?_, hsplit, fun hone comment rest hcomment hbody hclose => ?_, fun hnone hdropped => ?_⟩
  · rw [Action.dropped_iff, Directive.ofAction_eq_comment, Action.opensComment_iff]
    refine and_iff_left_of_imp fun hopen => ?_
    -- An action that begins like a comment and does not end like one is an error.
    obtain ⟨directive, hread⟩ := (reads_of_parse h).2 _ hm
    rw [Directive.ofAction, if_pos (Action.opensComment_iff.mpr hopen)] at hread
    split at hread
    · assumption
    · cases hread
  · have hwhole := hone (hsplit.mpr ⟨comment, rest, hcomment, hbody, .inr hclose⟩)
    have happend : action.body ++ [] = comment ++ rest := by rw [List.append_nil, hbody]
    rw [← (hwhole.append_inj hcomment happend).2] at hclose
    simp at hclose
  · obtain ⟨comment, rest, hcomment, hbody, rfl | hclose⟩ := hsplit.mp hdropped
    · rwa [hbody, List.append_nil]
    · exact absurd hclose (hnone comment rest hcomment hbody)

/-- A comment between trim markers. -/
theorem dropped_of_parse_trimmed :
    let source := "a \x7b\x7b- /* b */ -\x7d\x7d c"
    let nodes : List Node := [.literal ⟨0, ['a']⟩, .literal ⟨18, ['c']⟩]
    let gap : Gap := ⟨0, ['a', ' ']⟩
    let action := Action.ofInner 2 "- /* b */ -".toList
    parse source = .ok nodes ∧ (gap, action) ∈ (Scan.ofSource source.toList).actions ∧
      (action.Dropped ↔ ['/', '*'] <+: action.body) ∧
      (action.Dropped ↔ ∃ comment rest, IsComment comment ∧ action.body = comment ++ rest ∧
        (rest = [] ∨ ['*', '/'] <:+ rest)) ∧
      ((action.Dropped → IsComment action.body) ↔
        ∀ comment rest, IsComment comment → action.body = comment ++ rest →
          ¬['*', '/'] <:+ rest) := by
  intro source nodes gap action
  have hparse : parse source = .ok nodes := by
    unfold source nodes
    with_unfolding_all rfl
  have hm : (gap, action) ∈ (Scan.ofSource source.toList).actions := by
    unfold source
    decide +kernel
  exact ⟨hparse, hm, dropped_of_parse hparse hm⟩

/-- The field between two comments of one action leaves no trace. -/
theorem field_dropped :
    let source := "\x7b\x7b/* a */ .X /* b */\x7d\x7d"
    let action := Action.ofInner 0 "/* a */ .X /* b */".toList
    parse source = .ok [] ∧ (⟨0, []⟩, action) ∈ (Scan.ofSource source.toList).actions ∧
      action.Dropped ∧ ¬IsComment action.body := by
  intro source action
  have hfirst : IsComment ['/', '*', ' ', 'a', ' ', '*', '/'] :=
    ⟨[' ', 'a', ' '], rfl, by decide⟩
  have hread : Directive.ofAction action = .ok .comment := by rfl
  refine ⟨?_, ?_, Action.dropped_iff.mpr hread, fun hwhole => ?_⟩
  · unfold source
    with_unfolding_all rfl
  · unfold source
    decide +kernel
  · have happend : action.body ++ [] =
        ['/', '*', ' ', 'a', ' ', '*', '/'] ++ " .X /* b */".toList := by decide
    cases (hwhole.append_inj hfirst happend).2

end LiveTemplate
