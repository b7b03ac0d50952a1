import LiveTemplate.Proofs.Template.Names
import Mathlib.Data.List.Chain
import Mathlib.Data.List.Nodup

/-!
# Bodies and their blocks

`Resolves` relates a body to its block and to the number of definitions on the longest chain of
inclusions from it, without regard to the order in which definitions are resolved. A body has at
most one block (`Resolves.unique`), and it has one if its names are in scope and the definitions
that it invokes have blocks (`exists_resolves`).

The height is exact: no chain of definitions from a body is longer (`Resolves.length_le`), and one
is as long (`Resolves.exists_chain`).
-/

namespace LiveTemplate

/-! ## Invocations -/

mutual

/-- The names that a node invokes, bodies of definitions inside aside. -/
def Node.invoked : Node → List String
  | .literal _ => []
  | .print _ _ => []
  | .branch _ _ body otherwise _ => invokedIn body ++ invokedInElse otherwise
  | .define _ _ _ => []
  | .invoke name _ _ => [name]
termination_by structural node => node

/-- The names that a body invokes. -/
def invokedIn : List Node → List String
  | [] => []
  | node :: rest => node.invoked ++ invokedIn rest
termination_by structural nodes => nodes

/-- The names that the second body of a branch invokes. -/
def invokedInElse : Option (List Node) → List String
  | none => []
  | some nodes => invokedIn nodes
termination_by structural nodes => nodes

end

/-- One definition invokes another in its body. -/
def Invokes (definitions : List Definition) (outer inner : Definition) : Prop :=
  outer ∈ definitions ∧ inner ∈ definitions ∧ inner.name ∈ invokedIn outer.body

/-- There is a chain of so many definitions, each of which invokes the next one. A body invokes the
first of them. -/
def ChainFrom (definitions : List Definition) (nodes : List Node) (length : Nat) : Prop :=
  ∃ chain : List Definition, chain.length = length ∧
    (∀ definition ∈ chain, definition ∈ definitions) ∧ chain.IsChain (Invokes definitions) ∧
      ∀ first, chain.head? = some first → first.name ∈ invokedIn nodes

namespace ChainFrom

variable {definitions : List Definition} {nodes part : List Node} {one other : Nat}

theorem nil : ChainFrom definitions nodes 0 :=
  ⟨[], rfl, nofun, List.isChain_nil, nofun⟩

theorem mono (hsub : invokedIn part ⊆ invokedIn nodes) (h : ChainFrom definitions part one) :
    ChainFrom definitions nodes one := by
  obtain ⟨chain, hlen, hmem, hchain, hfirst⟩ := h
  exact ⟨chain, hlen, hmem, hchain, fun first hf => hsub (hfirst first hf)⟩

theorem sup (h1 : ChainFrom definitions nodes one) (h2 : ChainFrom definitions nodes other) :
    ChainFrom definitions nodes (max one other) := by
  rcases Nat.le_total one other with hle | hle
  · rwa [Nat.max_eq_right hle]
  · rwa [Nat.max_eq_left hle]

/-- A definition comes before the chains from its body. -/
theorem exists_cons {definition : Definition} (hd : definition ∈ definitions)
    (h : ChainFrom definitions definition.body one) :
    ∃ chain : List Definition, chain.length = one ∧
      (∀ other ∈ definition :: chain, other ∈ definitions) ∧
        (definition :: chain).IsChain (Invokes definitions) := by
  obtain ⟨chain, hlen, hmem, hchain, hfirst⟩ := h
  refine ⟨chain, hlen, List.forall_mem_cons.mpr ⟨hd, hmem⟩, hchain.cons fun first hf => ?_⟩
  exact ⟨hd, hmem first (List.mem_of_head? hf), hfirst first hf⟩

theorem cons {definition : Definition} (hd : definition ∈ definitions)
    (hname : definition.name ∈ invokedIn nodes)
    (h : ChainFrom definitions definition.body one) : ChainFrom definitions nodes (one + 1) := by
  obtain ⟨chain, rfl, hmem, hchain⟩ := h.exists_cons hd
  refine ⟨definition :: chain, rfl, hmem, hchain, ?_⟩
  rintro _ ⟨⟩
  exact hname

end ChainFrom

/-! ## Resolving -/

/-- The block of a body in which some variables are declared, with its height. Each invocation
includes the block of its definition, which starts without variables. -/
inductive Resolves (hasFunction : String → Bool) (definitions : List Definition) :
    List String → List Node → Resolved → Prop
  | nil {declared} : Resolves hasFunction definitions declared [] ⟨[], 0⟩
  | literal {declared slice rest others}
      (hrest : Resolves hasFunction definitions declared rest others) :
      Resolves hasFunction definitions declared (.literal slice :: rest)
        ⟨.literal (String.ofList slice.text) :: others.block, others.height⟩
  | print {declared pipeline span rest others}
      (hsite : Site.InScope hasFunction ⟨pipeline, declared, false⟩)
      (hrest : Resolves hasFunction definitions (pipeline.declares ++ declared) rest others) :
      Resolves hasFunction definitions declared (.print pipeline span :: rest)
        ⟨(if pipeline.binding.isSome then .bind pipeline span else .print pipeline span) ::
          others.block, others.height⟩
  | branch {declared kind head body span rest inner others}
      (hsite : Site.InScope hasFunction ⟨head, declared, kind = .loop⟩)
      (hbody : Resolves hasFunction definitions (kind.declaresInBody head ++ declared) body inner)
      (hrest : Resolves hasFunction definitions declared rest others) :
      Resolves hasFunction definitions declared (.branch kind head body none span :: rest)
        ⟨.branch kind head inner.block none span :: others.block,
          max inner.height others.height⟩
  | branchElse {declared kind head body otherwise span rest inner innerElse others}
      (hsite : Site.InScope hasFunction ⟨head, declared, kind = .loop⟩)
      (hbody : Resolves hasFunction definitions (kind.declaresInBody head ++ declared) body inner)
      (helse : Resolves hasFunction definitions (kind.declaresInElse head ++ declared) otherwise
        innerElse)
      (hrest : Resolves hasFunction definitions declared rest others) :
      Resolves hasFunction definitions declared
        (.branch kind head body (some otherwise) span :: rest)
        ⟨.branch kind head inner.block (some innerElse.block) span :: others.block,
          max (max inner.height innerElse.height) others.height⟩
  | define {declared name body span rest others}
      (hrest : Resolves hasFunction definitions declared rest others) :
      Resolves hasFunction definitions declared (.define name body span :: rest) others
  | invoke {declared name argument span rest definition inner others}
      (hsite : ∀ pipeline, argument = some pipeline →
        Site.InScope hasFunction ⟨pipeline, declared, false⟩)
      (hdefinition : definition ∈ definitions) (hname : definition.name = name)
      (hbody : Resolves hasFunction definitions [] definition.body inner)
      (hrest : Resolves hasFunction definitions
        ((argument.map Pipeline.declares).getD [] ++ declared) rest others) :
      Resolves hasFunction definitions declared (.invoke name argument span :: rest)
        ⟨.include name argument inner.block span :: others.block,
          max (inner.height + 1) others.height⟩

section Laws

variable {hasFunction : String → Bool} {definitions : List Definition} {declared : List String}
  {nodes : List Node} {resolved : Resolved}

theorem eq_of_name_eq (hn : (definitions.map Definition.name).Nodup) {one other : Definition}
    (h1 : one ∈ definitions) (h2 : other ∈ definitions) (he : one.name = other.name) :
    one = other :=
  List.inj_on_of_nodup_map hn h1 h2 he

namespace Resolves

theorem unique (hn : (definitions.map Definition.name).Nodup)
    (h : Resolves hasFunction definitions declared nodes resolved) {other : Resolved}
    (ho : Resolves hasFunction definitions declared nodes other) : resolved = other := by
  induction h generalizing other with
  | nil =>
    cases ho
    rfl
  | literal _ ih =>
    cases ho with
    | literal hrest => rw [ih hrest]
  | print _ _ ih =>
    cases ho with
    | print _ hrest => rw [ih hrest]
  | branch _ _ _ ihbody ihrest =>
    cases ho with
    | branch _ hbody hrest => rw [ihbody hbody, ihrest hrest]
  | branchElse _ _ _ _ ihbody ihelse ihrest =>
    cases ho with
    | branchElse _ hbody helse hrest => rw [ihbody hbody, ihelse helse, ihrest hrest]
  | define _ ih =>
    cases ho with
    | define hrest => exact ih hrest
  | invoke _ hd hname _ _ ihbody ihrest =>
    cases ho with
    | invoke _ hd' hname' hbody hrest =>
      cases eq_of_name_eq hn hd hd' (hname.trans hname'.symm)
      rw [ihbody hbody, ihrest hrest]

/-- The names of a body that has a block are in scope. -/
theorem sites (h : Resolves hasFunction definitions declared nodes resolved) :
    ∀ site ∈ sitesIn declared nodes, site.InScope hasFunction := by
  induction h with
  | nil => exact fun _ hm => nomatch hm
  | literal _ ih => exact ih
  | print hsite _ ih => exact List.forall_mem_cons.mpr ⟨hsite, ih⟩
  | branch hsite _ _ ihbody ihrest =>
    rw [sitesIn, Node.sites, sitesInElse, List.append_nil]
    exact List.forall_mem_append.mpr ⟨List.forall_mem_cons.mpr ⟨hsite, ihbody⟩, ihrest⟩
  | branchElse hsite _ _ _ ihbody ihelse ihrest =>
    rw [sitesIn, Node.sites, sitesInElse]
    exact List.forall_mem_append.mpr
      ⟨List.forall_mem_cons.mpr ⟨hsite, List.forall_mem_append.mpr ⟨ihbody, ihelse⟩⟩, ihrest⟩
  | define _ ih => exact ih
  | @invoke declared name argument span rest definition inner others hsite _ _ _ _ _ ihrest =>
    refine List.forall_mem_append.mpr ⟨fun site hm => ?_, ihrest⟩
    cases argument with
    | none => cases hm
    | some pipeline =>
      cases List.mem_singleton.mp hm
      exact hsite pipeline rfl

/-- What a body with a block invokes has a block of its own, from which the longest chain is
shorter. -/
theorem invoked (h : Resolves hasFunction definitions declared nodes resolved) :
    ∀ name ∈ invokedIn nodes, ∃ definition ∈ definitions, definition.name = name ∧
      ∃ inner, Resolves hasFunction definitions [] definition.body inner ∧
        inner.height < resolved.height := by
  have raise {name : String} {small large : Nat} (hle : small ≤ large)
      (hm : ∃ definition ∈ definitions, definition.name = name ∧
        ∃ inner, Resolves hasFunction definitions [] definition.body inner ∧
          inner.height < small) :
      ∃ definition ∈ definitions, definition.name = name ∧
        ∃ inner, Resolves hasFunction definitions [] definition.body inner ∧
          inner.height < large := by
    obtain ⟨definition, hd, hname, inner, hinner, hlt⟩ := hm
    exact ⟨definition, hd, hname, inner, hinner, Nat.lt_of_lt_of_le hlt hle⟩
  induction h with
  | nil => exact fun _ hm => nomatch hm
  | literal _ ih => exact ih
  | print _ _ ih => exact ih
  | branch _ _ _ ihbody ihrest =>
    intro name hm
    rw [invokedIn, Node.invoked, invokedInElse, List.append_nil, List.mem_append] at hm
    rcases hm with hm | hm
    · exact raise (Nat.le_max_left _ _) (ihbody name hm)
    · exact raise (Nat.le_max_right _ _) (ihrest name hm)
  | branchElse _ _ _ _ ihbody ihelse ihrest =>
    intro name hm
    rw [invokedIn, Node.invoked, invokedInElse, List.mem_append, List.mem_append] at hm
    rcases hm with (hm | hm) | hm
    · exact raise (Nat.le_trans (Nat.le_max_left _ _) (Nat.le_max_left _ _)) (ihbody name hm)
    · exact raise (Nat.le_trans (Nat.le_max_right _ _) (Nat.le_max_left _ _)) (ihelse name hm)
    · exact raise (Nat.le_max_right _ _) (ihrest name hm)
  | define _ ih => exact ih
  | invoke _ hd hname hbody _ _ ihrest =>
    intro name hm
    rw [invokedIn, Node.invoked, List.singleton_append, List.mem_cons] at hm
    rcases hm with rfl | hm
    · exact ⟨_, hd, hname, _, hbody, Nat.lt_of_succ_le (Nat.le_max_left _ _)⟩
    · exact raise (Nat.le_max_right _ _) (ihrest name hm)

/-- From a body with a block there is a chain of definitions as long as its height. -/
theorem exists_chain (h : Resolves hasFunction definitions declared nodes resolved) :
    ChainFrom definitions nodes resolved.height := by
  induction h with
  | nil => exact .nil
  | literal _ ih => exact ih
  | print _ _ ih => exact ih
  | branch _ _ _ ihbody ihrest =>
    refine .sup (ihbody.mono fun name hm => ?_) (ihrest.mono (List.subset_append_right _ _))
    exact List.mem_append_left _ (List.mem_append_left _ hm)
  | branchElse _ _ _ _ ihbody ihelse ihrest =>
    refine .sup (.sup (ihbody.mono fun name hm => ?_) (ihelse.mono fun name hm => ?_))
      (ihrest.mono (List.subset_append_right _ _))
    · exact List.mem_append_left _ (List.mem_append_left _ hm)
    · exact List.mem_append_left _ (List.mem_append_right _ hm)
  | define _ ih => exact ih
  | invoke _ hd hname _ _ ihbody ihrest =>
    refine .sup (.cons hd (List.mem_append_left _ ?_) ihbody)
      (ihrest.mono (List.subset_append_right _ _))
    exact List.mem_singleton.mpr hname

/-- No chain of definitions is longer than the height of the first of them allows. -/
theorem length_le (hn : (definitions.map Definition.name).Nodup) {first : Definition}
    {chain : List Definition} {resolved : Resolved}
    (h : Resolves hasFunction definitions [] first.body resolved)
    (hchain : (first :: chain).IsChain (Invokes definitions)) :
    chain.length ≤ resolved.height := by
  induction chain generalizing first resolved with
  | nil => exact Nat.zero_le _
  | cons second rest ih =>
    rw [List.isChain_cons_cons] at hchain
    obtain ⟨⟨-, hsecond, hinvoked⟩, hchain⟩ := hchain
    obtain ⟨definition, hd, hname, inner, hinner, hlt⟩ := h.invoked _ hinvoked
    cases eq_of_name_eq hn hd hsecond hname
    exact Nat.lt_of_le_of_lt (ih hinner hchain) hlt

end Resolves

/-- Where all definitions have blocks, none leads back to itself. -/
theorem acyclic_of_resolves (hn : (definitions.map Definition.name).Nodup)
    (hall : ∀ definition ∈ definitions, ∃ resolved,
      Resolves hasFunction definitions [] definition.body resolved) (definition : Definition) :
    ¬ Relation.TransGen (Invokes definitions) definition definition := by
  -- Along a path of invocations the height gets smaller.
  have hpath {one other : Definition} (hp : Relation.TransGen (Invokes definitions) one other)
      {before after : Resolved} (hb : Resolves hasFunction definitions [] one.body before)
      (ha : Resolves hasFunction definitions [] other.body after) :
      after.height < before.height := by
    have hstep {one other : Definition} (hs : Invokes definitions one other)
        {before after : Resolved} (hb : Resolves hasFunction definitions [] one.body before)
        (ha : Resolves hasFunction definitions [] other.body after) :
        after.height < before.height := by
      obtain ⟨found, hd, hname, inner, hinner, hlt⟩ := hb.invoked _ hs.2.2
      cases eq_of_name_eq hn hd hs.2.1 hname
      exact (hinner.unique hn ha) ▸ hlt
    induction hp generalizing after with
    | single hs => exact hstep hs hb ha
    | tail _ hs ih =>
      obtain ⟨middle, hm⟩ := hall _ hs.1
      exact Nat.lt_trans (hstep hs hm ha) (ih hm)
  intro hcycle
  obtain ⟨_, hmem, -⟩ := Relation.TransGen.head'_iff.mp hcycle
  obtain ⟨resolved, hr⟩ := hall _ hmem.1
  exact Nat.lt_irrefl _ (hpath hcycle hr hr)

end Laws

/-! ## Existence -/

section Existence

variable {hasFunction : String → Bool} {definitions : List Definition}

/-- Every definition that a body invokes has a block. -/
def InvokesResolved (hasFunction : String → Bool) (definitions : List Definition)
    (names : List String) : Prop :=
  ∀ name ∈ names, ∃ definition ∈ definitions, definition.name = name ∧
    ∃ inner, Resolves hasFunction definitions [] definition.body inner

mutual

theorem exists_resolves_cons (declared : List String) (node : Node) {rest : List Node}
    (hs : ∀ site ∈ node.sites declared, site.InScope hasFunction)
    (hi : InvokesResolved hasFunction definitions node.invoked)
    (hrest : ∃ others, Resolves hasFunction definitions (node.declares ++ declared) rest others) :
    ∃ resolved, Resolves hasFunction definitions declared (node :: rest) resolved := by
  obtain ⟨others, hrest⟩ := hrest
  cases node with
  | literal slice => exact ⟨_, .literal hrest⟩
  | print pipeline span => exact ⟨_, .print (hs _ (List.mem_singleton_self _)) hrest⟩
  | branch kind head body otherwise span =>
    rw [Node.sites, List.forall_mem_cons, List.forall_mem_append] at hs
    obtain ⟨hhead, hbody, helse⟩ := hs
    obtain ⟨inner, hbody⟩ := exists_resolves _ body hbody fun name hm =>
      hi name (List.mem_append_left _ hm)
    cases otherwise with
    | none => exact ⟨_, .branch hhead hbody hrest⟩
    | some nodes =>
      obtain ⟨innerElse, helse⟩ := exists_resolves _ nodes helse fun name hm =>
        hi name (List.mem_append_right _ hm)
      exact ⟨_, .branchElse hhead hbody helse hrest⟩
  | define name body span => exact ⟨_, .define hrest⟩
  | invoke name argument span =>
    obtain ⟨definition, hd, hname, inner, hinner⟩ := hi name (List.mem_singleton_self _)
    refine ⟨_, .invoke (fun pipeline hp => hs _ ?_) hd hname hinner hrest⟩
    rw [hp]
    exact List.mem_singleton_self _
termination_by structural node

/-- A body has a block if its names are in scope and all that it invokes have blocks. -/
theorem exists_resolves (declared : List String) (nodes : List Node)
    (hs : ∀ site ∈ sitesIn declared nodes, site.InScope hasFunction)
    (hi : InvokesResolved hasFunction definitions (invokedIn nodes)) :
    ∃ resolved, Resolves hasFunction definitions declared nodes resolved := by
  cases nodes with
  | nil => exact ⟨_, .nil⟩
  | cons node rest =>
    rw [sitesIn, List.forall_mem_append] at hs
    refine exists_resolves_cons declared node hs.1
      (fun name hm => hi name (List.mem_append_left _ hm)) ?_
    exact exists_resolves _ rest hs.2 fun name hm => hi name (List.mem_append_right _ hm)
termination_by structural nodes

end

end Existence

end LiveTemplate
