import LiveTemplate.Proofs.Template.Acceptance
import LiveTemplate.Proofs.Template.Failures
import LiveTemplate.Proofs.Template.Layout
import LiveTemplate.Template.Compile

/-!
# Sources for which there are words enough

Each part of a block comes from a node of its own, and the nodes of a body cover bytes of the source
apart from each other. So no block of a template has more parts than the source has bytes, however
often a definition is included, and a source of fewer bytes than there are words gives an
addressable template (`Template.addressable_of_compile`).
-/

namespace LiveTemplate

variable {source : List Char} {start stop : Nat} {node : Node} {nodes rest : List Node}

/-! ## Nodes one after another -/

namespace Arranged

theorem of_placed (ha : nodes.Pairwise Node.Apart) (hp : ∀ node ∈ nodes, node.Placed source) :
    Arranged source 0 nodes (Text.byteLength source) :=
  ⟨ha, fun node hm => ⟨Nat.zero_le _, (hp node hm).isIn.inside⟩, hp⟩

theorem tail (h : Arranged source start (node :: rest) stop) : Arranged source start rest stop :=
  ⟨(List.pairwise_cons.mp h.apart).2, (List.forall_mem_cons.mp h.within).2,
    (List.forall_mem_cons.mp h.placed).2⟩

/-- Behind a node that is no definition there are fewer bytes left. -/
theorem behind (h : Arranged source start (node :: rest) stop)
    (hn : ∀ name body span, node ≠ .define name body span) :
    start < node.span.stop ∧ node.span.stop ≤ stop ∧
      Arranged source node.span.stop rest stop := by
  obtain ⟨hstart, hstop⟩ := h.within node List.mem_cons_self
  have hcovers : node.span.start < node.span.stop := by
    cases h.placed node List.mem_cons_self with
    | intro covers => exact covers
  refine ⟨Nat.lt_of_le_of_lt hstart hcovers, hstop, h.tail.apart, fun other hm => ?_,
    h.tail.placed⟩
  refine ⟨?_, (h.tail.within other hm).2⟩
  rcases (List.pairwise_cons.mp h.apart).1 other hm with hle | ⟨name, body, _, span, rfl, -⟩
  · exact hle
  · exact absurd rfl (hn name body span)

end Arranged

theorem Node.Placed.arranged (h : node.Placed source) {body : List Node}
    (hb : body ∈ node.bodies) : Arranged source 0 body (Text.byteLength source) :=
  .of_placed (h.apart hb) (h.body hb)

/-! ## Blocks -/

/-- The parts of a block are addressable, and there are no more of them than bytes from a position
on. -/
def FitsBehind (source : List Char) (start : Nat) (block : Block) : Prop :=
  addressableParts block = true ∧ block.length ≤ Text.byteLength source - start

theorem FitsBehind.addressable {block : Block} (h : FitsBehind source start block)
    (hw : Text.byteLength source < wordLimit) : block.addressable = true :=
  Block.addressable_iff.mpr ⟨by have := h.2; omega, h.1⟩

theorem FitsBehind.cons {part : Part} {others : Block} (ha : part.addressable = true)
    (hlt : start < stop) (hle : stop ≤ Text.byteLength source)
    (h : FitsBehind source stop others) : FitsBehind source start (part :: others) := by
  refine ⟨Bool.and_eq_true_iff.mpr ⟨ha, h.1⟩, ?_⟩
  have hlength := h.2
  rw [List.length_cons]
  omega

/-- Each part of the block of a body takes bytes of its own. -/
theorem Resolves.fitsBehind {hasFunction : String → Bool} {definitions : List Definition}
    {declared : List String} {resolved : Resolved} (hw : Text.byteLength source < wordLimit)
    (hd : ∀ definition ∈ definitions, definition.Inside source)
    (h : Resolves hasFunction definitions declared nodes resolved)
    (hn : Arranged source start nodes (Text.byteLength source)) :
    FitsBehind source start resolved.block := by
  induction h generalizing start with
  | nil => exact ⟨rfl, Nat.zero_le _⟩
  | literal _ ih =>
    obtain ⟨hlt, hle, hrest⟩ := hn.behind nofun
    exact .cons rfl hlt hle (ih hrest)
  | print _ _ ih =>
    obtain ⟨hlt, hle, hrest⟩ := hn.behind nofun
    refine .cons ?_ hlt hle (ih hrest)
    split <;> rfl
  | branch _ _ _ ihbody ih =>
    obtain ⟨hlt, hle, hrest⟩ := hn.behind nofun
    have hplaced := hn.placed _ List.mem_cons_self
    have hbody := (ihbody (hplaced.arranged List.mem_cons_self)).addressable hw
    exact .cons (Part.addressable_branch.mpr ⟨hbody, nofun⟩) hlt hle (ih hrest)
  | branchElse _ _ _ _ ihbody ihelse ih =>
    obtain ⟨hlt, hle, hrest⟩ := hn.behind nofun
    have hplaced := hn.placed _ List.mem_cons_self
    have hbody := (ihbody (hplaced.arranged List.mem_cons_self)).addressable hw
    have helse := (ihelse (hplaced.arranged
      (List.mem_cons_of_mem _ (Option.mem_toList.mpr rfl)))).addressable hw
    refine .cons (Part.addressable_branch.mpr ⟨hbody, ?_⟩) hlt hle (ih hrest)
    rintro _ ⟨⟩
    exact helse
  | define _ ih => exact ih hn.tail
  | invoke _ hdefinition _ _ _ ihbody ih =>
    obtain ⟨hlt, hle, hrest⟩ := hn.behind nofun
    have hinside := hd _ hdefinition
    have hbody : Block.addressable _ = true :=
      (ihbody (.of_placed hinside.apart hinside.body)).addressable hw
    exact .cons hbody hlt hle (ih hrest)

/-! ## Templates -/

/-- A source of fewer bytes than there are words gives an addressable template. -/
theorem Template.addressable_of_compile {source : String} {options : CompileOptions}
    {functions : FunctionTable} {template : Template}
    (h : compile source options functions = .ok template)
    (hw : Text.byteLength source.toList < wordLimit) : template.root.addressable = true := by
  rw [compile, bind_eq_ok] at h
  obtain ⟨nodes, hparse, h⟩ := h
  obtain ⟨resolution, hresolve, ⟨⟩⟩ := bind_eq_ok.mp h
  obtain ⟨-, root, hroot, -, hblock, -⟩ := resolve_eq_ok.mp (mapError_eq_ok.mp hresolve)
  have harranged := arranged_of_parse hparse
  have hdefinitions := inside_definitionsIn nodes harranged.placed
  exact hblock ▸ (hroot.fitsBehind hw hdefinitions harranged).addressable hw

end LiveTemplate
