import LiveTemplate.Proofs.Eval.Agrees
import LiveTemplate.Proofs.Eval.Builtin
import LiveTemplate.Proofs.Render.Names

/-!
# Renders and the order of entries

What a template with the builtin functions shows does not depend on the order in which entries were
added to the maps of its data (`Template.render_reordered`), so that no update is sent for that
order alone.
-/

namespace LiveTemplate

/-! ## Environments -/

namespace Environment.Reordered

variable {env env' : Environment} {value other : Value}

theorem withDot (he : env.Reordered env') (hv : value.Reordered other) :
    Environment.Reordered { env with dot := value } { env' with dot := other } where
  root := he.root
  dot := hv
  functions_eq := he.functions_eq
  insensitive := he.insensitive

theorem enter (he : env.Reordered env') (hv : value.Reordered other) (kind : BranchKind) :
    (env.enter kind value).Reordered (env'.enter kind other) := by
  rw [Environment.enter, Environment.enter]
  split
  · exact he.withDot hv
  · exact he

end Environment.Reordered

/-! ## Parts -/

open Evaluating

mutual

theorem renderPart_agrees {env env' : Environment} (he : env.Reordered env') (part : Part) :
    Agrees Eq (renderPart env part) (renderPart env' part) := by
  cases part with
  | literal text =>
    rw [renderPart, renderPart]
    exact .pure rfl
  | bind pipeline span =>
    rw [renderPart, renderPart]
    exact (Agrees.run he pipeline).bind fun _ _ _ => .pure rfl
  | print pipeline span =>
    rw [renderPart, renderPart]
    refine (Agrees.run he pipeline).bind fun value other hv => ?_
    rw [hv.display_eq]
    exact .pure rfl
  | branch kind head body otherwise span =>
    have helse : Agrees Eq (some <$> renderElse env otherwise)
        (some <$> renderElse env' otherwise) := by
      rw [← bind_pure_comp, ← bind_pure_comp]
      exact (renderElse_agrees he otherwise).map some
    rw [renderPart.eq_def, renderPart.eq_def]
    cases kind with
    | loop =>
      refine (Agrees.entries he head).bind fun entries entries' hentries => ?_
      have hempty : entries.isEmpty = entries'.isEmpty := by
        cases hentries <;> rfl
      rw [hempty]
      split
      · exact helse
      · have hbody item item' (hi : Value.Reordered item item') :=
          renderParts_agrees (he.withDot hi) body
        exact (Agrees.rounds hbody head.binding hentries).map _
    | _ =>
      refine .inScope ((Agrees.run he head).bind fun value other hv => ?_)
      rw [hv.truthy_eq]
      split
      · exact (renderParts_agrees (he.enter hv _) body).inScope.map _
      · exact helse
  | «include» name argument body span =>
    rw [renderPart, renderPart]
    refine (Agrees.argument he argument).bind fun value other hv => ?_
    exact (renderParts_agrees (he.withDot hv) body).inScope.isolated.map _
termination_by structural part

theorem renderParts_agrees {env env' : Environment} (he : env.Reordered env')
    (parts : List Part) : Agrees Eq (renderParts env parts) (renderParts env' parts) := by
  cases parts with
  | nil =>
    rw [renderParts, renderParts]
    exact .pure rfl
  | cons part rest =>
    rw [renderParts, renderParts]
    refine (renderPart_agrees he part).bind fun slot _ hslot => ?_
    rw [hslot]
    exact (renderParts_agrees he rest).map _
termination_by structural parts

theorem renderElse_agrees {env env' : Environment} (he : env.Reordered env')
    (otherwise : Option (List Part)) :
    Agrees Eq (renderElse env otherwise) (renderElse env' otherwise) := by
  cases otherwise with
  | none =>
    rw [renderElse, renderElse]
    exact .pure rfl
  | some parts =>
    rw [renderElse, renderElse]
    exact (renderParts_agrees he parts).inScope.map _
termination_by structural otherwise

end

/-! ## Templates -/

namespace Template

variable {template : Template} {data other : Value}

/-- A template whose functions are insensitive to the order of entries renders alike. -/
theorem render_eq_of_insensitive (hf : template.functions.Insensitive)
    (hd : data.Reordered other) : template.render data = template.render other := by
  have he : (template.environment data).Reordered (template.environment other) :=
    ⟨hd, hd, rfl, hf⟩
  rw [render, render, (renderParts_agrees he template.root).inScope.result]

/-- A template that is compiled with the builtin functions gives the same render, or the same error,
for data that are equal but for the order of entries. It also gives the same text or error. -/
theorem render_reordered {source : String} {options : CompileOptions} {template : Template}
    (h : Template.compile source options .builtins = .ok template) {data other : Value}
    (hd : data.Reordered other) :
    template.render data = template.render other ∧
      template.execute data = template.execute other := by
  obtain ⟨_, _, -, -, -, hfunctions⟩ := exists_resolves h
  have hrender : template.render data = template.render other :=
    render_eq_of_insensitive (hfunctions ▸ FunctionTable.builtins_insensitive) hd
  refine ⟨hrender, ?_⟩
  rw [← map_text_render, ← map_text_render, hrender]

/-- The entries of the data and those of a row stand in another order. -/
theorem render_reordered_rows :
    let action (body : String) : String := "\x7b\x7b" ++ body ++ "\x7d\x7d"
    let source := action "range $i, $row := .rows" ++ action "$i" ++ "=" ++ action "$row.n" ++
      "/" ++ action "len $row" ++ ";" ++ action "end" ++ action "index . \"title\""
    let first : Value := .map [("n", .int 2)]
    let data : Value := .map [("title", .text "t"),
      ("rows", .list [first, .map [("m", .null), ("n", .int 1)]])]
    let other : Value := .map [("rows", .list [first, .map [("n", .int 1), ("m", .null)]]),
      ("title", .text "t")]
    data.Reordered other ∧
      ∃ template, Template.compile source {} .builtins = .ok template ∧
        template.render data = template.render other ∧
        template.execute data = .ok "0=2/1;1=1/2;t" ∧
        template.execute other = .ok "0=2/1;1=1/2;t" := by
  intro action source first data other
  have hfirst : first.Reordered first := .map (by decide) (.refl _) (.cons ⟨.int 2⟩ .nil)
  have hsecond : Value.Reordered (.map [("m", .null), ("n", .int 1)])
      (.map [("n", .int 1), ("m", .null)]) :=
    .map (by decide) (.swap _ _ []) (.cons ⟨.int 1⟩ (.cons ⟨.null⟩ .nil))
  have hdata : data.Reordered other := .map (by decide) (.swap _ _ [])
    (.cons ⟨.list (.cons hfirst (.cons hsecond .nil))⟩ (.cons ⟨.text "t"⟩ .nil))
  have htext : (Template.compile source {} .builtins).toOption.any (fun template =>
      (template.execute data).toOption == some "0=2/1;1=1/2;t") = true := by decide +kernel
  cases hcompile : Template.compile source {} .builtins with
  | error problem =>
    rw [hcompile] at htext
    cases htext
  | ok template =>
    rw [hcompile] at htext
    obtain ⟨hrender, hexecute⟩ := render_reordered hcompile hdata
    have hok : template.execute data = .ok "0=2/1;1=1/2;t" := by
      have hsome : (template.execute data).toOption = some "0=2/1;1=1/2;t" := eq_of_beq htext
      cases hd : template.execute data with
      | error error =>
        rw [hd] at hsome
        cases hsome
      | ok text =>
        rw [hd] at hsome
        exact congrArg Except.ok (Option.some.inj hsome)
    exact ⟨hdata, template, rfl, hrender, hok, hexecute ▸ hok⟩

end Template

end LiveTemplate
