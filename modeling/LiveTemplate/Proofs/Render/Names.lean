import LiveTemplate.Eval.Builtin
import LiveTemplate.Proofs.Eval.Tracks
import LiveTemplate.Proofs.Render.Parity
import LiveTemplate.Proofs.Template.Acceptance
import LiveTemplate.Proofs.Template.Pipelines

/-!
# Names while rendering

A block that was resolved renders without a failure for a name that is not known
(`Resolves.renderParts_tracks`): before each of its parts, the variables that are declared are those
that its resolution takes to be declared there.
-/

namespace LiveTemplate

open Evaluating

theorem Environment.functions_enter (env : Environment) (kind : BranchKind) (value : Value) :
    (env.enter kind value).functions = env.functions := by
  rw [Environment.enter]
  split <;> rfl

section Parts

variable {env : Environment} {before : List String} {span : Span}

theorem renderParts_tracks_cons (extra : List String) {part : Part} {rest : List Part}
    (hpart : Tracks before (extra ++ before) (renderPart env part))
    (hrest : TracksMore (extra ++ before) (renderParts env rest)) :
    TracksMore before (renderParts env (part :: rest)) := by
  obtain ⟨more, hrest⟩ := hrest
  refine ⟨more ++ extra, ?_⟩
  rw [List.append_assoc, renderParts]
  exact hpart.bind fun _ => hrest.bind fun _ => .pure _

theorem renderElse_tracks {otherwise : Option (List Part)}
    (h : ∀ parts, otherwise = some parts → TracksMore before (renderParts env parts)) :
    Tracks before before (renderElse env otherwise) := by
  cases otherwise with
  | none => exact .pure _
  | some parts => exact (Tracks.inScope (h parts rfl)).bind fun _ => .pure _

/-- The names of a loop hold in its rounds only, those of any other branch in both of its bodies. -/
theorem renderBranch_tracks {kind : BranchKind} {head : Pipeline} {body : List Part}
    {otherwise : Option (List Part)} (hb : head.boundNames.length ≤ 2)
    (hsite : Site.InScope env.functions.contains ⟨head, before, kind = .loop⟩)
    (hbody : ∀ inner : Environment, inner.functions = env.functions →
      TracksMore (kind.declaresInBody head ++ before) (renderParts inner body))
    (helse : Tracks (kind.declaresInElse head ++ before) (kind.declaresInElse head ++ before)
      (renderElse env otherwise)) :
    Tracks before before (renderPart env (.branch kind head body otherwise span)) := by
  by_cases hk : kind = .loop
  · subst hk
    rw [renderPart]
    refine (Tracks.entries hsite).bind fun entries => ?_
    split
    · exact helse.map some
    · exact (Tracks.rounds hb (fun item => hbody { env with dot := item } rfl) entries).bind
        fun _ => .pure _
  · simp only [BranchKind.declaresInBody, BranchKind.declaresInElse, hk, if_false, decide_false]
      at hsite hbody helse
    rw [renderPart]
    · refine Tracks.inScope ⟨head.declares, (Tracks.run hsite).bind fun value => ?_⟩
      split
      · have hinside := hbody (env.enter kind value) (env.functions_enter kind value)
        exact (Tracks.inScope hinside).bind fun _ => .pure _
      · exact helse.map some
    · exact hk

theorem renderInclude_tracks {name : String} {argument : Option Pipeline} {body : List Part}
    (hsite : ∀ pipeline, argument = some pipeline →
      Site.InScope env.functions.contains ⟨pipeline, before, false⟩)
    (hbody : ∀ inner : Environment, inner.functions = env.functions →
      TracksMore [] (renderParts inner body)) :
    Tracks before ((argument.map Pipeline.declares).getD [] ++ before)
      (renderPart env (.include name argument body span)) := by
  rw [renderPart]
  refine (Tracks.argument hsite).bind fun value => ?_
  have hinside := hbody { env with dot := value } rfl
  exact (Tracks.isolated (Tracks.inScope hinside)).bind fun _ => .pure _

end Parts

/-- The variables before each part of a block are those that its resolution takes to be declared
there. The induction is on the resolution, and each inclusion goes on with that of a definition. -/
theorem Resolves.renderParts_tracks {functions : FunctionTable} {definitions : List Definition}
    (hdefinitions : ∀ definition ∈ definitions, AllIn IsRead definition.body)
    {declared : List String} {nodes : List Node} {resolved : Resolved}
    (h : Resolves functions.contains definitions declared nodes resolved)
    (hn : AllIn IsRead nodes) (env : Environment) (henv : env.functions = functions) :
    TracksMore declared (renderParts env resolved.block) := by
  induction h generalizing env with
  | nil => exact (Tracks.pure _).more
  | literal _ ih =>
    obtain ⟨-, hrest⟩ := allIn_cons.mp hn
    exact renderParts_tracks_cons [] (.pure _) (ih hrest env henv)
  | @print declared pipeline span rest others hsite _ ih =>
    obtain ⟨-, hrest⟩ := allIn_cons.mp hn
    subst henv
    refine renderParts_tracks_cons _ ?_ (ih hrest env rfl)
    -- Both kinds of parts run the pipeline, and only the second one prints its value.
    split
    · exact (Tracks.run hsite).bind fun _ => .pure _
    · exact (Tracks.run hsite).bind fun _ => .pure _
  | branch hsite _ _ ihbody ihrest =>
    obtain ⟨hnode, hrest⟩ := allIn_cons.mp hn
    obtain ⟨hhead, hboth⟩ := List.forall_mem_cons.mp hnode
    obtain ⟨hbody, -⟩ := List.forall_mem_append.mp hboth
    subst henv
    exact renderParts_tracks_cons [] (renderBranch_tracks hhead.length_boundNames hsite
      (fun inner => ihbody hbody inner) (renderElse_tracks nofun)) (ihrest hrest env rfl)
  | branchElse hsite _ _ _ ihbody ihelse ihrest =>
    obtain ⟨hnode, hrest⟩ := allIn_cons.mp hn
    obtain ⟨hhead, hboth⟩ := List.forall_mem_cons.mp hnode
    obtain ⟨hbody, hother⟩ := List.forall_mem_append.mp hboth
    subst henv
    refine renderParts_tracks_cons [] (renderBranch_tracks hhead.length_boundNames hsite
      (fun inner => ihbody hbody inner) (renderElse_tracks ?_)) (ihrest hrest env rfl)
    rintro _ ⟨⟩
    exact ihelse hother env rfl
  | define _ ih => exact ih (allIn_cons.mp hn).2 env henv
  | invoke hsite hd _ _ _ ihbody ihrest =>
    obtain ⟨-, hrest⟩ := allIn_cons.mp hn
    subst henv
    exact renderParts_tracks_cons _ (renderInclude_tracks hsite fun inner hinner =>
      ihbody (hdefinitions _ hd) inner hinner) (ihrest hrest env rfl)

/-- The resolution of the root of a compiled template. -/
theorem Template.exists_resolves {source : String} {options : CompileOptions}
    {functions : FunctionTable} {template : Template}
    (h : Template.compile source options functions = .ok template) :
    ∃ nodes root, AllIn IsRead nodes ∧
      Resolves functions.contains (definitionsIn nodes) [] nodes root ∧
        template.root = root.block ∧ template.functions = functions := by
  obtain ⟨nodes, hparse, h⟩ := bind_eq_ok.mp h
  obtain ⟨resolution, hresolve, h⟩ := bind_eq_ok.mp h
  cases h
  obtain ⟨-, root, hroot, -, hblock, -⟩ := resolve_eq_ok.mp (mapError_eq_ok.mp hresolve)
  exact ⟨nodes, root, isRead_of_parse hparse, hroot, hblock, rfl⟩

theorem Template.named_of_render {source : String} {options : CompileOptions}
    {functions : FunctionTable} {template : Template}
    (h : Template.compile source options functions = .ok template) {data : Value}
    {error : EvaluationError} (he : template.render data = .error error) :
    error.problem.isNaming = false := by
  obtain ⟨nodes, root, hread, hroot, hblock, rfl⟩ := exists_resolves h
  have hdefinitions : ∀ definition ∈ definitionsIn nodes, AllIn IsRead definition.body :=
    fun definition hd pipeline hm => hread pipeline (pipelinesIn_definitions nodes definition hd hm)
  have htracks := hroot.renderParts_tracks hdefinitions hread (template.environment data) rfl
  rw [← hblock] at htracks
  rcases bind_eq_error.mp he with hresult | ⟨_, -, ⟨⟩⟩
  exact (Tracks.inScope htracks).result hresult

/-- A compiled template fails, if at all, for another reason than a name that is not known, whether
it is rendered to a tree or to text. -/
theorem Template.names_known {source : String} {options : CompileOptions}
    {functions : FunctionTable} {template : Template}
    (h : Template.compile source options functions = .ok template) (data : Value)
    {error : EvaluationError}
    (he : template.render data = .error error ∨ template.execute data = .error error)
    (name : String) :
    error.problem ≠ .undefinedVariable name ∧ error.problem ≠ .unknownFunction name := by
  have hrender : template.render data = .error error := by
    rcases he with he | he
    · exact he
    · exact map_eq_error.mp ((map_text_render template data).trans he)
  have hnaming := named_of_render h hrender
  constructor
  · intro heq
    rw [heq] at hnaming
    cases hnaming
  · intro heq
    rw [heq] at hnaming
    cases hnaming

/-- A loop declares its variables anew whatever its mark, a scope and a test declare those of their
bodies, and a definition starts without variables. What fails is the last index. -/
theorem Template.names_known_index :
    let action (body : String) : String := "\x7b\x7b" ++ body ++ "\x7d\x7d"
    let source := action "range $i, $x = ." ++ action "with $y := $x" ++
      action "template \"last\" $y" ++ action "end" ++ action "end" ++ action "define \"last\"" ++
      action "$x := ." ++ action "if $z := len $x" ++ action "$x = $z" ++ action "end" ++
      action "index $ $x" ++ action "end"
    ∃ template error, Template.compile source {} .builtins = .ok template ∧
      template.render (.list [.null, .list [.int 5, .int 6]]) = .error error ∧
      ∀ name, error.problem ≠ .undefinedVariable name ∧
        error.problem ≠ .unknownFunction name := by
  intro action source
  have hfails : (Template.compile source {} .builtins).toOption.any (fun template =>
      !(template.render (.list [.null, .list [.int 5, .int 6]])).toBool) = true := by decide +kernel
  cases hcompile : Template.compile source {} .builtins with
  | error problem =>
    rw [hcompile] at hfails
    cases hfails
  | ok template =>
    rw [hcompile] at hfails
    cases hrender : template.render (.list [.null, .list [.int 5, .int 6]]) with
    | ok tree =>
      have : (!(template.render (.list [.null, .list [.int 5, .int 6]])).toBool) = true := hfails
      rw [hrender] at this
      cases this
    | error error => exact ⟨template, error, rfl, hrender, names_known hcompile _ (.inl hrender)⟩

end LiveTemplate
