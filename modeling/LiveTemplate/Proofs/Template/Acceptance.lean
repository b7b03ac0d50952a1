import LiveTemplate.Proofs.Template.Resolve
import Mathlib.Data.List.Forall2
import Mathlib.Tactic.Choose

/-!
# Which templates are resolved

`resolve_spec` says which trees are resolved and to which blocks, without mention of the order in
which definitions are resolved and of what is kept meanwhile.

* `Admissible`: what is asked of a tree. Its definitions have different names and exist where they
  are invoked, they do not lead back to themselves, and their chains are not longer than the limit.
  Each body uses and assigns only what is in scope.
* `including`: the block of a body, given the blocks that its invocations include.
-/

namespace LiveTemplate

/-! ## Runs -/

theorem checkDistinct_eq_ok {seen : List String} {definitions : List Definition} :
    checkDistinct seen definitions = .ok () ↔
      (definitions.map Definition.name).Nodup ∧
        ∀ definition ∈ definitions, definition.name ∉ seen := by
  induction definitions generalizing seen with
  | nil => simp [checkDistinct]
  | cons definition rest ih =>
    rw [checkDistinct]
    split
    · rename_i hseen
      simp [hseen]
    · rename_i hseen
      simp only [ih, List.mem_cons, not_or, List.map_cons, List.nodup_cons, List.mem_map,
        forall_eq_or_imp, hseen, not_false_eq_true, true_and]
      constructor
      · rintro ⟨hn, hrest⟩
        refine ⟨⟨?_, hn⟩, fun other ho => (hrest other ho).2⟩
        rintro ⟨other, ho, hname⟩
        exact (hrest other ho).1 hname
      · rintro ⟨⟨hnew, hn⟩, hrest⟩
        exact ⟨hn, fun other ho => ⟨fun hname => hnew ⟨other, ho, hname⟩, hrest other ho⟩⟩

section Runs

variable {context : ResolveContext} {definitions : List Definition}

/-- The entry of a definition in a resolution: its name and its block, which no chain of inclusions
that is too long goes through. -/
def IsEntry (context : ResolveContext) (definitions : List Definition) (definition : Definition)
    (entry : String × Block) : Prop :=
  ∃ inner, Resolves context.hasFunction definitions [] definition.body inner ∧
    inner.height < context.limit ∧ entry = (definition.name, inner.block)

/-- At the start there is room for all that the limit allows. -/
theorem Room.start (hn : (definitions.map Definition.name).Nodup) {height : Nat}
    (hle : height ≤ context.limit) : Room context definitions [] definitions height where
  found definition hd _ := by
    have hsome : (definitions.find? (·.name == definition.name)).isSome :=
      List.find?_isSome.mpr ⟨definition, hd, beq_self_eq_true _⟩
    obtain ⟨other, hother⟩ := Option.isSome_iff_exists.mp hsome
    rw [hother, eq_of_name_eq hn (List.mem_of_find?_eq_some hother) hd (name_of_find? hother)]
  higher _ _ := nofun
  depth := by rwa [List.length_nil, Nat.zero_add]

/-- Resolves a definition for its entry. -/
def ResolveContext.entry (context : ResolveContext) (definitions : List Definition)
    (found : Definition) : Resolving (String × Block) := do
  let resolved ← context.definition [] definitions found.name found.span
  pure (found.name, resolved.block)

theorem entries_sound (hn : (definitions.map Definition.name).Nodup) {rest : List Definition}
    {done after : List (String × Resolved)} {entries : List (String × Block)}
    (hsub : rest ⊆ definitions)
    (hdone : Finished context.hasFunction definitions done)
    (h : StateT.run (rest.mapM (context.entry definitions)) done = .ok (entries, after)) :
    List.Forall₂ (IsEntry context definitions) rest entries := by
  induction rest generalizing done entries with
  | nil =>
    obtain ⟨rfl, -⟩ := run_mapM_nil.mp h
    exact .nil
  | cons definition rest ih =>
    obtain ⟨entry, middle, others, hentry, hrest, rfl⟩ := run_mapM_cons.mp h
    obtain ⟨inner, _, hrun, hentry⟩ := run_bind_eq_ok.mp hentry
    obtain ⟨rfl, rfl⟩ := Prod.mk.inj (run_pure_eq_ok.mp hentry)
    obtain ⟨hd, hsub⟩ := List.cons_subset.mp hsub
    obtain ⟨hmiddle, hlt, found, hfound, hname, hinner⟩ :=
      context.definition_sound [] definitions (List.Subset.refl _) _ _ _ _ _ hdone hrun
    cases eq_of_name_eq hn hfound hd hname
    exact .cons ⟨inner, hinner, hlt, rfl⟩ (ih hsub hmiddle hrest)

theorem entries_complete (hn : (definitions.map Definition.name).Nodup) {rest : List Definition}
    {entries : List (String × Block)} (hsub : rest ⊆ definitions)
    (h : List.Forall₂ (IsEntry context definitions) rest entries)
    {done : List (String × Resolved)} (hdone : Finished context.hasFunction definitions done) :
    ∃ after, StateT.run (rest.mapM (context.entry definitions)) done = .ok (entries, after) := by
  induction h generalizing done with
  | nil => exact ⟨done, run_mapM_nil.mpr ⟨rfl, rfl⟩⟩
  | cons hentry _ ih =>
    obtain ⟨inner, hinner, hlt, rfl⟩ := hentry
    obtain ⟨hd, hsub⟩ := List.cons_subset.mp hsub
    obtain ⟨middle, hrun, hmiddle⟩ := Resolves.run_definition hn hd hinner
      (fun _ _ _ => hinner.run hn) (Room.start hn (Nat.le_refl _)) hlt hdone _
    obtain ⟨after, hrest⟩ := ih hsub hmiddle
    refine ⟨after, run_mapM_cons.mpr ⟨_, middle, _, ?_, hrest, rfl⟩⟩
    exact run_bind_eq_ok.mpr ⟨inner, middle, hrun, rfl⟩

/-- Resolving gives the blocks of the root and of all definitions, if there are such. -/
theorem resolve_eq_ok {nodes : List Node} {resolution : Resolution} :
    resolve context nodes = .ok resolution ↔
      ((definitionsIn nodes).map Definition.name).Nodup ∧
        ∃ root, Resolves context.hasFunction (definitionsIn nodes) [] nodes root ∧
          root.height ≤ context.limit ∧ resolution.root = root.block ∧
          List.Forall₂ (IsEntry context (definitionsIn nodes)) (definitionsIn nodes)
            resolution.definitions := by
  constructor
  · intro h
    obtain ⟨⟨⟩, hdistinct, htemplate⟩ := bind_eq_ok.mp h
    obtain ⟨⟨found, last⟩, hrun, hfound⟩ := bind_eq_ok.mp htemplate
    cases hfound
    obtain ⟨hn, -⟩ := checkDistinct_eq_ok.mp hdistinct
    obtain ⟨root, middle, hroot, hrun⟩ := run_bind_eq_ok.mp hrun
    obtain ⟨entries, after, hentries, hrun⟩ := run_bind_eq_ok.mp hrun
    obtain ⟨rfl, rfl⟩ := Prod.mk.inj (run_pure_eq_ok.mp hrun)
    obtain ⟨hmiddle, hresolves, hle⟩ := resolveNodes_sound
      (context.definition_sound [] _ (List.Subset.refl _)) nodes .nil hroot
    exact ⟨hn, root, hresolves, hle, rfl, entries_sound hn (List.Subset.refl _) hmiddle hentries⟩
  · obtain ⟨block, entries⟩ := resolution
    rintro ⟨hn, root, hresolves, hle, rfl, hentries⟩
    obtain ⟨middle, hroot, hmiddle⟩ := hresolves.run hn (Room.start hn hle) .nil
    obtain ⟨after, hrun⟩ := entries_complete hn (List.Subset.refl _) hentries hmiddle
    refine bind_eq_ok.mpr ⟨(), checkDistinct_eq_ok.mpr ⟨hn, nofun⟩,
      bind_eq_ok.mpr ⟨(_, after), ?_, rfl⟩⟩
    exact run_bind_eq_ok.mpr ⟨root, middle, hroot, run_bind_eq_ok.mpr ⟨_, _, hrun, rfl⟩⟩

end Runs

/-! ## What is asked of a template -/

/-- The bodies of a template: its root and those of its definitions. -/
def bodiesOf (nodes : List Node) : List (List Node) :=
  nodes :: (definitionsIn nodes).map Definition.body

/-- What is asked of the tree of a source. Each body starts without variables. -/
structure Admissible (context : ResolveContext) (nodes : List Node) : Prop where
  distinct : ((definitionsIn nodes).map Definition.name).Nodup
  defined : ∀ body ∈ bodiesOf nodes, ∀ name ∈ invokedIn body,
    name ∈ (definitionsIn nodes).map Definition.name
  acyclic : ∀ definition, ¬ Relation.TransGen (Invokes (definitionsIn nodes)) definition definition
  bounded : ∀ chain : List Definition, (∀ definition ∈ chain, definition ∈ definitionsIn nodes) →
    chain.IsChain (Invokes (definitionsIn nodes)) → chain.length ≤ context.limit
  inScope : ∀ body ∈ bodiesOf nodes, ∀ site ∈ sitesIn [] body, site.InScope context.hasFunction

section Admissible

variable {context : ResolveContext} {nodes : List Node}

/-- Bodies without long chains have blocks. The induction is on the length of the chains. -/
theorem Admissible.exists_resolves_of_chains (h : Admissible context nodes) (length : Nat)
    {body : List Node} (hb : body ∈ bodiesOf nodes)
    (hchains : ∀ other, ChainFrom (definitionsIn nodes) body other → other ≤ length) :
    ∃ resolved, Resolves context.hasFunction (definitionsIn nodes) [] body resolved := by
  induction length generalizing body with
  | zero =>
    refine exists_resolves [] body (h.inScope body hb) fun name hm => ?_
    obtain ⟨definition, hd, rfl⟩ := List.mem_map.mp (h.defined body hb name hm)
    -- An invoked definition is a chain by itself.
    exact absurd (hchains 1 (.cons hd hm .nil)) (Nat.not_succ_le_zero 0)
  | succ length ih =>
    refine exists_resolves [] body (h.inScope body hb) fun name hm => ?_
    obtain ⟨definition, hd, rfl⟩ := List.mem_map.mp (h.defined body hb name hm)
    refine ⟨definition, hd, rfl, ih (List.mem_cons_of_mem _ (List.mem_map_of_mem hd)) ?_⟩
    exact fun other ho => Nat.le_of_succ_le_succ (hchains (other + 1) (.cons hd hm ho))

theorem Admissible.exists_resolves (h : Admissible context nodes) {body : List Node}
    (hb : body ∈ bodiesOf nodes) :
    ∃ resolved, Resolves context.hasFunction (definitionsIn nodes) [] body resolved := by
  refine h.exists_resolves_of_chains context.limit hb ?_
  rintro _ ⟨chain, rfl, hmem, hchain, -⟩
  exact h.bounded chain hmem hchain

/-- An admissible tree is resolved. -/
theorem Admissible.exists_resolve (h : Admissible context nodes) :
    ∃ resolution, resolve context nodes = .ok resolution := by
  obtain ⟨root, hroot⟩ := h.exists_resolves List.mem_cons_self
  have hle : root.height ≤ context.limit := by
    obtain ⟨chain, hlen, hmem, hchain, -⟩ := hroot.exists_chain
    exact hlen ▸ h.bounded chain hmem hchain
  have hentries : ∀ definition ∈ definitionsIn nodes, ∃ entry,
      IsEntry context (definitionsIn nodes) definition entry := by
    intro definition hd
    obtain ⟨inner, hinner⟩ := h.exists_resolves (List.mem_cons_of_mem _ (List.mem_map_of_mem hd))
    obtain ⟨chain, hlen, hmem, hchain⟩ := hinner.exists_chain.exists_cons hd
    exact ⟨_, inner, hinner, hlen ▸ h.bounded _ hmem hchain, rfl⟩
  choose! entry hentry using hentries
  refine ⟨⟨root.block, (definitionsIn nodes).map entry⟩, resolve_eq_ok.mpr
    ⟨h.distinct, root, hroot, hle, rfl, ?_⟩⟩
  exact List.forall₂_map_right_iff.mpr (List.forall₂_same.mpr hentry)

theorem exists_entry {definitions rest : List Definition} {entries : List (String × Block)}
    (h : List.Forall₂ (IsEntry context definitions) rest entries) :
    ∀ definition ∈ rest, ∃ entry, IsEntry context definitions definition entry := by
  induction h with
  | nil => exact nofun
  | cons hentry _ ih => exact List.forall_mem_cons.mpr ⟨⟨_, hentry⟩, ih⟩

/-- A tree that is resolved is admissible. -/
theorem admissible_of_resolve {resolution : Resolution}
    (h : resolve context nodes = .ok resolution) : Admissible context nodes := by
  obtain ⟨hn, root, hroot, -, -, hentries⟩ := resolve_eq_ok.mp h
  have hdefinitions := exists_entry hentries
  have hbodies : ∀ body ∈ bodiesOf nodes, ∃ resolved,
      Resolves context.hasFunction (definitionsIn nodes) [] body resolved := by
    refine List.forall_mem_cons.mpr ⟨⟨root, hroot⟩, List.forall_mem_map.mpr fun definition hd => ?_⟩
    obtain ⟨_, inner, hinner, -⟩ := hdefinitions definition hd
    exact ⟨inner, hinner⟩
  refine ⟨hn, fun body hb name hm => ?_, acyclic_of_resolves hn fun definition hd =>
    hbodies _ (List.mem_cons_of_mem _ (List.mem_map_of_mem hd)),
    fun chain hmem hchain => ?_, fun body hb => ?_⟩
  · obtain ⟨resolved, hresolved⟩ := hbodies body hb
    obtain ⟨definition, hd, rfl, -⟩ := hresolved.invoked name hm
    exact List.mem_map_of_mem hd
  · cases chain with
    | nil => exact Nat.zero_le _
    | cons first rest =>
      obtain ⟨_, inner, hinner, hlt, -⟩ := hdefinitions first (hmem first List.mem_cons_self)
      exact Nat.lt_of_le_of_lt (hinner.length_le hn hchain) hlt
  · obtain ⟨resolved, hresolved⟩ := hbodies body hb
    exact hresolved.sites

end Admissible

/-! ## Included blocks -/

mutual

/-- The part of a node, in which the invocation of a name includes the block of this name. -/
def Node.part? (block : String → Block) : Node → Option Part
  | .literal slice => some (.literal (String.ofList slice.text))
  | .print pipeline span =>
    some (if pipeline.binding.isSome then .bind pipeline span else .print pipeline span)
  | .branch kind head body otherwise span =>
    some (.branch kind head (including block body) (includingElse block otherwise) span)
  | .define _ _ _ => none
  | .invoke name argument span => some (.include name argument (block name) span)
termination_by structural node => node

/-- The nodes of a body in order without the definitions. -/
def including (block : String → Block) : List Node → Block
  | [] => []
  | node :: rest => (node.part? block).toList ++ including block rest
termination_by structural nodes => nodes

/-- The second body of a branch, if it has one. -/
def includingElse (block : String → Block) : Option (List Node) → Option Block
  | none => none
  | some nodes => some (including block nodes)
termination_by structural nodes => nodes

end

/-- The block of the definition of a name. -/
def Resolution.blockOf (resolution : Resolution) (name : String) : Block :=
  (resolution.definitions.lookup name).getD []

section Blocks

variable {context : ResolveContext} {definitions : List Definition}

theorem lookup_entries (hn : (definitions.map Definition.name).Nodup) {rest : List Definition}
    {entries : List (String × Block)} (h : List.Forall₂ (IsEntry context definitions) rest entries)
    (hsub : rest ⊆ definitions) {definition : Definition} (hd : definition ∈ rest)
    {inner : Resolved}
    (hinner : Resolves context.hasFunction definitions [] definition.body inner) :
    entries.lookup definition.name = some inner.block := by
  induction h with
  | nil => cases hd
  | cons hentry _ ih =>
    obtain ⟨found, hfound, -, rfl⟩ := hentry
    obtain ⟨hfirst, hrest⟩ := List.cons_subset.mp hsub
    rw [List.lookup_cons]
    split
    · rename_i heq
      cases eq_of_name_eq hn (hsub hd) hfirst (eq_of_beq heq)
      rw [hfound.unique hn hinner]
    · rename_i hne
      rcases List.mem_cons.mp hd with rfl | hd
      · simp at hne
      · exact ih hrest hd

theorem Resolves.block_eq {block : String → Block}
    (hblock : ∀ definition ∈ definitions, ∀ inner,
      Resolves context.hasFunction definitions [] definition.body inner →
        block definition.name = inner.block)
    {declared : List String} {nodes : List Node} {resolved : Resolved}
    (h : Resolves context.hasFunction definitions declared nodes resolved) :
    resolved.block = including block nodes := by
  induction h with
  | nil => rfl
  | literal _ ih => exact congrArg _ ih
  | print _ _ ih => exact congrArg _ ih
  | branch _ _ _ ihbody ihrest =>
    rw [including, Node.part?, includingElse, ← ihbody, ← ihrest]
    rfl
  | branchElse _ _ _ _ ihbody ihelse ihrest =>
    rw [including, Node.part?, includingElse, ← ihbody, ← ihelse, ← ihrest]
    rfl
  | define _ ih => exact ih
  | invoke _ hd hname hbody _ _ ihrest =>
    subst hname
    rw [including, Node.part?, hblock _ hd _ hbody, ← ihrest]
    rfl

end Blocks

/-- A tree is resolved if and only if it is admissible. Its root and its definitions then are their
bodies without the definitions inside, each invocation including the block of its definition. -/
theorem resolve_spec (context : ResolveContext) (nodes : List Node) :
    ((∃ resolution, resolve context nodes = .ok resolution) ↔ Admissible context nodes) ∧
      ∀ resolution, resolve context nodes = .ok resolution →
        resolution.root = including resolution.blockOf nodes ∧
          resolution.definitions = (definitionsIn nodes).map fun definition =>
            (definition.name, including resolution.blockOf definition.body) := by
  refine ⟨⟨fun ⟨_, h⟩ => admissible_of_resolve h, Admissible.exists_resolve⟩,
    fun resolution h => ?_⟩
  obtain ⟨hn, root, hroot, -, hblock, hentries⟩ := resolve_eq_ok.mp h
  have hblocks : ∀ definition ∈ definitionsIn nodes, ∀ inner,
      Resolves context.hasFunction (definitionsIn nodes) [] definition.body inner →
        resolution.blockOf definition.name = inner.block := by
    intro definition hd inner hinner
    rw [Resolution.blockOf, lookup_entries hn hentries (List.Subset.refl _) hd hinner]
    rfl
  refine ⟨hblock.trans (hroot.block_eq hblocks), ?_⟩
  rw [← List.forall₂_eq_eq_eq]
  refine List.forall₂_map_right_iff.mpr (List.Forall₂.flip (hentries.imp ?_))
  rintro definition _ ⟨inner, hinner, -, rfl⟩
  exact congrArg _ (hinner.block_eq hblocks)

/-- The chain of three definitions is known only when the first of them is resolved, after its
last two. -/
theorem resolve_spec_chain :
    let span : Span := ⟨0, 0⟩
    let nodes : List Node := [.invoke "c" none span, .define "c" [] span,
      .define "b" [.invoke "c" none span] span, .invoke "b" none span,
      .define "a" [.invoke "b" none span] span]
    Admissible ⟨fun _ => false, 3⟩ nodes ∧ ¬ Admissible ⟨fun _ => false, 2⟩ nodes ∧
      ∃ resolution, resolve ⟨fun _ => false, 3⟩ nodes = .ok resolution ∧
        resolution.root = including resolution.blockOf nodes := by
  intro span nodes
  have hlong : (resolve ⟨fun _ => false, 3⟩ nodes).toBool = true := by decide +kernel
  have hshort : (resolve ⟨fun _ => false, 2⟩ nodes).toBool = false := by decide +kernel
  cases hresolve : resolve ⟨fun _ => false, 3⟩ nodes with
  | error problem =>
    rw [hresolve] at hlong
    cases hlong
  | ok resolution =>
    refine ⟨(resolve_spec _ _).1.mp ⟨resolution, hresolve⟩, fun h => ?_, resolution, rfl,
      ((resolve_spec _ _).2 resolution hresolve).1⟩
    obtain ⟨other, hother⟩ := (resolve_spec _ _).1.mpr h
    rw [hother] at hshort
    cases hshort

end LiveTemplate
