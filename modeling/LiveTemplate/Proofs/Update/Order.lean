import LiveTemplate.Proofs.Update.Chosen

/-!
# The order of fragments

The fragments between two renders can be applied in any order, although the id of one may lead
through the node of another: a keyed fragment changes slots of trees and leaves the trees in place,
and all other fragments are for nodes that it does not change.

* `Slot.LeadEach`: fragments that lead each slot of a node from one content to another lead the node
  (`Slot.LeadEach.tree`), however those for different slots are mixed.
* `Update.LeadsAnyhow`: what an update does at a client if its nested part and its fragments arrive
  in any order. Every update that is chosen has this property (`Slot.compare_leadsAnyhow`).
* `RenderTree.fragments_independent`: the fragments between two renders have different ids, and a
  client reaches the second render in whatever order it applies them.
-/

namespace LiveTemplate

namespace Slot

section

variable {path : KeyPath} {start : Nat} {fragments : List Fragment} {old new : Slot}
  {olds news : List Slot}

theorem Lead.eq_of_nil (h : Lead path [] old new) : old = new := by
  cases h
  rfl

/-! ## Fragments for several slots -/

/-- For each of several slots, those of some fragments whose ids pass through the slot lead it from
one content to another. The first slot has the given key. -/
structure LeadEach (path : KeyPath) (start : Nat) (fragments : List Fragment)
    (olds news : List Slot) : Prop where
  length : olds.length = news.length
  lead : ∀ (i : Nat) (old new : Slot), olds[i]? = some old → news[i]? = some new →
    Lead (path.child (start + i)) (fragments.filter (·.hasKeyAt path.length (start + i))) old new

namespace LeadEach

theorem nil : LeadEach path start fragments [] [] where
  length := rfl
  lead := fun _ _ _ ho => nomatch ho

theorem cons
    (first : Lead (path.child start) (fragments.filter (·.hasKeyAt path.length start)) old new)
    (rest : LeadEach path (start + 1) fragments olds news) :
    LeadEach path start fragments (old :: olds) (new :: news) where
  length := congrArg Nat.succ rest.length
  lead := by
    intro i a b ha hb
    cases i with
    | zero =>
      obtain rfl := Option.some.inj ha
      obtain rfl := Option.some.inj hb
      exact first
    | succ i =>
      rw [show start + (i + 1) = start + 1 + i by omega]
      exact rest.lead i a b ha hb

/-- The first fragment changes the slot that its id passes through and leaves the others, so that
the rest still lead every slot. -/
theorem uncons {fragment : Fragment} {rest : List Fragment}
    (h : LeadEach path 0 (fragment :: rest) olds news) {key : Nat} {below : KeyPath}
    (hid : fragment.id = (path ++ key :: below).text) (hold : olds[key]? = some old) :
    ∃ below middle, fragment.id = (path ++ key :: below).text ∧
      applyAt fragment.id (applyPayload fragment) (below.map KeyPath.segment) old =
        (middle, none) ∧
      LeadEach path 0 rest (olds.set key middle) news := by
  have hlt := (List.getElem?_eq_some_iff.mp hold).1
  have hnew := List.getElem?_eq_getElem (h.length ▸ hlt)
  have hkey (other : Nat) : fragment.hasKeyAt path.length other = true ↔ key = other :=
    Fragment.hasKeyAt_iff hid
  have hown := h.lead key _ _ hold hnew
  rw [Nat.zero_add, List.filter_cons, if_pos ((hkey key).mpr rfl)] at hown
  cases hown with
  | @cons _ _ _ middle _ below address first hrest =>
    rw [KeyPath.child, List.append_assoc] at address
    refine ⟨below, middle, address, first, ?_, ?_⟩
    · rw [List.length_set, h.length]
    · intro i a b ha hb
      rw [Nat.zero_add]
      by_cases he : key = i
      · subst he
        rw [List.getElem?_set_self hlt] at ha
        cases ha
        cases hnew.symm.trans hb
        exact hrest
      · rw [List.getElem?_set_ne he] at ha
        have hother := h.lead i a b ha hb
        rwa [Nat.zero_add, List.filter_cons, if_neg fun hm => he ((hkey i).mp hm)] at hother

/-- Fragments that lead every slot of a tree lead the tree. Those for different slots may stand
in any order. -/
theorem tree (h : LeadEach path 0 fragments olds news) (hk : olds.length ≤ KeyPath.keyLimit)
    (hb : ∀ fragment ∈ fragments, ∃ key below, key < olds.length ∧
      fragment.id = (path ++ key :: below).text) (statics : List String) :
    Lead path fragments (.tree statics olds) (.tree statics news) := by
  induction fragments generalizing olds with
  | nil =>
    have hsame : olds = news := List.ext_getElem h.length fun i ho hn =>
      (h.lead i _ _ (List.getElem?_eq_getElem ho) (List.getElem?_eq_getElem hn)).eq_of_nil
    rw [hsame]
    exact .nil _
  | cons fragment rest ih =>
    obtain ⟨key, below, hlt, hid⟩ := hb fragment List.mem_cons_self
    have hold := List.getElem?_eq_getElem hlt
    obtain ⟨below, middle, address, first, hrest⟩ := h.uncons hid hold
    have hlength : (olds.set key middle).length = olds.length := List.length_set
    refine .cons (key :: below) address
      (applyAt_slot statics (Nat.lt_of_lt_of_le hlt hk) hold first)
      (ih hrest (hlength ▸ hk) fun other hm => ?_)
    rw [hlength]
    exact hb other (List.mem_cons_of_mem _ hm)

end LeadEach

end

end Slot

/-! ## Updates in parts -/

namespace Update

open Slot

variable {path : KeyPath} {old new : Slot} {update : Update}

/-- The nested part of an update at a path and its fragments lead from one node to another in
whatever order they arrive: some fragments before the nested part and the others after it. -/
def LeadsAnyhow (update : Update) (path : KeyPath) (old new : Slot) : Prop :=
  ∀ first last : List Fragment, (first ++ last).Perm (update.inline path).2 →
    ∃ before after, Lead path first old before ∧
      Nested (update.inline path).1 before after ∧ Lead path last after new

theorem Leads.anyhow_of_nil (h : update.Leads path old new)
    (hi : (update.inline path).2 = []) : update.LeadsAnyhow path old new := by
  intro first last hp
  rw [hi, List.perm_nil, List.append_eq_nil_iff] at hp
  obtain ⟨rfl, rfl⟩ := hp
  obtain ⟨middle, hnested, hlead⟩ := h
  rw [hi] at hlead
  exact ⟨old, middle, .nil old, hnested, hlead⟩

theorem Leads.anyhow_of_single (h : update.Leads path old new) {fragment : Fragment}
    (hi : update.inline path = (none, [fragment])) : update.LeadsAnyhow path old new := by
  obtain ⟨middle, hnested, hlead⟩ := h
  rw [hi] at hnested hlead
  obtain rfl : old = middle := hnested
  intro first last hp
  rw [hi, List.perm_singleton, List.append_eq_singleton_iff] at hp
  rw [hi]
  rcases hp with ⟨rfl, rfl⟩ | ⟨rfl, rfl⟩
  · exact ⟨old, old, .nil old, rfl, hlead⟩
  · exact ⟨new, new, hlead, rfl, .nil new⟩

/-- The fragments for a top-level slot lead it from one content to another in any order. -/
theorem LeadsAnyhow.perm {key : Nat} (h : update.LeadsAnyhow [key] old new)
    {order : List Fragment} (hp : order.Perm (update.fragments key)) :
    Lead [key] order old new := by
  rw [fragments_eq] at hp
  cases hi : (update.inline [key]).1 with
  | none =>
    rw [hi] at hp
    obtain ⟨before, after, hfirst, hnested, hlast⟩ := h order [] (by rwa [List.append_nil])
    rw [hi] at hnested
    obtain rfl : before = after := hnested
    obtain rfl := hlast.eq_of_nil
    exact hfirst
  | some json =>
    rw [hi] at hp
    obtain ⟨first, last, rfl⟩ := List.append_of_mem (hp.symm.subset List.mem_cons_self)
    obtain ⟨before, after, hfirst, hnested, hlast⟩ :=
      h first last ((List.perm_middle.symm.trans hp).cons_inv)
    rw [hi] at hnested
    have hkeyed : applyPayload (.of (KeyPath.text [key]) .keyed json) before = (after, none) :=
      hnested _
    exact hfirst.append ((Lead.single hkeyed).append hlast)

end Update

namespace Slot

variable {options : UpdateOptions} {path : KeyPath} {first last : List Fragment}

/-- What arrives for each of several slots leads all of them: some fragments first, then what is
nested in one object, then the other fragments. -/
theorem exists_between (options : UpdateOptions) (start : Nat) {olds news : List Slot}
    (hl : olds.length = news.length)
    (h : ∀ (i : Nat) (old new : Slot), olds[i]? = some old → news[i]? = some new →
      ∃ before after,
        Lead (path.child (start + i)) (first.filter (·.hasKeyAt path.length (start + i))) old
          before ∧
        Nested ((compare options old new).bind fun update =>
          (update.inline (path.child (start + i))).1) before after ∧
        Lead (path.child (start + i)) (last.filter (·.hasKeyAt path.length (start + i))) after
          new) :
    ∃ befores afters, LeadEach path start first olds befores ∧
      Keyed start (Update.inlineFields path (compareSlots options start olds news)).1 befores
        afters ∧
      LeadEach path start last afters news := by
  induction olds generalizing start news with
  | nil =>
    rw [List.eq_nil_of_length_eq_zero hl.symm]
    exact ⟨[], [], .nil, .nil, .nil⟩
  | cons old olds ih =>
    cases news with
    | nil => cases hl
    | cons new news =>
      obtain ⟨before, after, hfirst, hnested, hlast⟩ := h 0 old new rfl rfl
      obtain ⟨befores, afters, hfirsts, hkeyed, hlasts⟩ := ih (start + 1) (Nat.succ.inj hl)
        fun i a b ha hb => by
          rw [show start + 1 + i = start + (i + 1) by omega]
          exact h (i + 1) a b ha hb
      have hfields := Keyed.cons hnested hkeyed
      refine ⟨before :: befores, after :: afters, .cons hfirst hfirsts, ?_, .cons hlast hlasts⟩
      rw [compareSlots]
      cases hc : compare options old new with
      | none =>
        rw [hc] at hfields
        exact hfields
      | some update =>
        rw [hc] at hfields
        exact hfields

theorem addressable_of_getElem? {slots : List Slot} {key : Nat} {slot : Slot}
    (h : addressableSlots slots = true) (hs : slots[key]? = some slot) :
    slot.addressable = true := by
  induction slots generalizing key with
  | nil => cases hs
  | cons first rest ih =>
    obtain ⟨hfirst, hrest⟩ := addressableSlots_cons.mp h
    cases key with
    | zero => exact Option.some.inj hs ▸ hfirst
    | succ key => exact ih hrest hs

/-- The fragments for the slots of two trees go below slots that exist. -/
theorem exists_key_of_mem {olds news : List Slot} {fragment : Fragment}
    (hf : fragment ∈ (Update.inlineFields path (compareSlots options 0 olds news)).2) :
    ∃ key below, key < olds.length ∧ fragment.id = (path ++ key :: below).text := by
  rw [Update.inlineFields_snd] at hf
  obtain ⟨change, hm, hf⟩ := List.mem_flatMap.mp hf
  obtain ⟨below, hid⟩ := (routed_compareSlots options path olds news).below change hm fragment hf
  have hkey := (keys_compareSlots options 0 olds news).subset (List.mem_map_of_mem hm)
  rw [List.mem_range'_1, Nat.zero_add] at hkey
  exact ⟨change.1, below, hkey.2, hid⟩

/-- The fragments for the slots of two trees, in any order, lead each slot, if those for a slot lead
it in any order. -/
theorem exists_parts {olds news : List Slot} {i : Nat} {old new : Slot} (hp : (first ++ last).Perm
      (Update.inlineFields path (compareSlots options 0 olds news)).2)
    (ho : olds[i]? = some old) (hn : news[i]? = some new)
    (h : ∀ update, compare options old new = some update →
      update.LeadsAnyhow (path.child i) old new) :
    ∃ before after,
      Lead (path.child i) (first.filter (·.hasKeyAt path.length i)) old before ∧
      Nested ((compare options old new).bind fun update => (update.inline (path.child i)).1)
        before after ∧
      Lead (path.child i) (last.filter (·.hasKeyAt path.length i)) after new := by
  have hparts := hp.filter (·.hasKeyAt path.length i)
  have hlookup := lookup_compareSlots options 0 ho hn
  rw [Nat.zero_add] at hlookup
  rw [List.filter_append, Update.inlineFields_snd,
    (routed_compareSlots options path olds news).filter i, hlookup] at hparts
  cases hc : compare options old new with
  | none =>
    rw [hc] at hparts
    obtain ⟨hfirst, hlast⟩ := List.append_eq_nil_iff.mp (List.perm_nil.mp hparts)
    rw [hfirst, hlast, eq_of_compare_none hc]
    exact ⟨new, new, .nil new, rfl, .nil new⟩
  | some update =>
    rw [hc] at hparts
    exact h update hc _ _ hparts

/-- The update between two nodes leads from the first one to the second in whatever order its parts
arrive. -/
theorem compare_leadsAnyhow {old new : Slot} {update : Update}
    (hc : compare options old new = some update) (hp : path ≠ []) (ho : old.sound = true)
    (hn : new.sound = true) (ao : old.addressable = true) (an : new.addressable = true) :
    update.LeadsAnyhow path old new := by
  induction chosen old new hc generalizing path with
  | text | items => exact (compare_leads path _ _ hc hp ho hn ao an).anyhow_of_nil rfl
  | replace | markers | edits =>
    exact (compare_leads path _ _ hc hp ho hn ao an).anyhow_of_single rfl
  | @keyed statics olds news differ fo fn inner ih =>
    have so := (sound_tree.mp ho).2
    have sn := (sound_tree.mp hn).2
    obtain ⟨lo, -, ao⟩ := addressable_tree.mp ao
    obtain ⟨-, -, an⟩ := addressable_tree.mp an
    have hl := length_eq_of_slotsFit fo fn
    have hk : olds.length ≤ KeyPath.keyLimit := Nat.le_of_lt (Nat.lt_trans lo (by decide))
    intro first last hperm
    obtain ⟨befores, afters, hfirst, hkeyed, hlast⟩ :=
      exists_between options 0 hl fun i a b ha hb => by
        rw [Nat.zero_add]
        exact exists_parts hperm ha hb fun update hc => ih i a b update ha hb hc hc
          (List.append_ne_nil_of_right_ne_nil _ (List.cons_ne_nil _ _))
          (sound_of_getElem? so ha) (sound_of_getElem? sn hb) (addressable_of_getElem? ao ha)
          (addressable_of_getElem? an hb)
    have hbelow (fragment : Fragment) (hm : fragment ∈ first ++ last) :=
      exists_key_of_mem (hperm.subset hm)
    refine ⟨.tree statics befores, .tree statics afters,
      hfirst.tree hk (fun fragment hm => hbelow fragment (List.mem_append_left _ hm)) statics,
      Update.nested_keyed hkeyed (hfirst.length ▸ hk) statics, hlast.tree ?_ ?_ statics⟩
    · rwa [hlast.length, ← hl]
    · intro fragment hm
      rw [hlast.length, ← hl]
      exact hbelow fragment (List.mem_append_right _ hm)

end Slot

/-! ## Renders -/

namespace RenderTree

open Slot

variable {prev next : RenderTree}

/-- The fragments between two renders lead from the first one to the second in any order. -/
theorem fragments_lead_perm (options : UpdateOptions) (hp : prev.sound = true)
    (hn : next.sound = true) (ap : prev.addressable = true) (an : next.addressable = true)
    {order : List Fragment} (ho : order.Perm (prev.fragments options next)) :
    Lead [] order prev.toSlot next.toSlot := by
  by_cases hroot : SameRoot prev next
  · obtain ⟨fp, sp⟩ := sound_tree.mp hp
    obtain ⟨fn, sn⟩ := sound_tree.mp hn
    obtain ⟨lp, -, ap⟩ := addressable_tree.mp ap
    obtain ⟨-, -, an⟩ := addressable_tree.mp an
    have hl := hroot.length_eq
    have hk : prev.slots.length ≤ KeyPath.keyLimit := Nat.le_of_lt (Nat.lt_trans lp (by decide))
    have heach : LeadEach [] 0 order prev.slots next.slots := by
      refine ⟨hl, fun i old new hold hnew => ?_⟩
      have hown := ho.filter (·.hasKeyAt 0 i)
      rw [filter_fragments hroot hold hnew] at hown
      rw [Nat.zero_add]
      cases hc : Slot.compare options old new with
      | none =>
        rw [hc] at hown
        rw [List.length_nil, List.perm_nil.mp hown, eq_of_compare_none hc]
        exact .nil new
      | some update =>
        rw [hc] at hown
        exact (compare_leadsAnyhow hc (List.cons_ne_nil _ _) (sound_of_getElem? sp hold)
          (sound_of_getElem? sn hnew) (addressable_of_getElem? ap hold)
          (addressable_of_getElem? an hnew)).perm hown
    rw [toSlot, toSlot, ← hroot.2.2]
    refine heach.tree hk (fun fragment hm => ?_) prev.statics
    obtain ⟨key, old, new, update, hold, -, hc, hf⟩ := (mem_fragments hroot).mp (ho.subset hm)
    obtain ⟨below, _, _, hid, -⟩ := (chosen old new hc).fragments_beside key hf
    exact ⟨key, below, (List.getElem?_eq_some_iff.mp hold).1, hid⟩
  · -- The whole render is one fragment.
    have hlead := fragments_lead options hp hn ap an
    rw [fragments_of_not_sameRoot hroot] at hlead ho
    rwa [List.perm_singleton.mp ho]

/-- The fragments between two renders have different ids, among them at most one keyed fragment for
each top-level slot, which has the key of the slot as its id. A client that was given the first
render applies them in any order without an error and then holds what a client holds that was given
the second one. -/
theorem fragments_independent (options : UpdateOptions) (hp : prev.sound = true)
    (hn : next.sound = true) (ap : prev.addressable = true) (an : next.addressable = true) :
    ((prev.fragments options next).map Fragment.id).Nodup ∧
      (∀ fragment ∈ prev.fragments options next, fragment.strategy = .keyed →
        ∃ key < next.slots.length, fragment.id = KeyPath.text [key]) ∧
      (∀ key, (prev.fragments options next).countP (fun fragment =>
        fragment.strategy == .keyed && fragment.id == KeyPath.text [key]) ≤ 1) ∧
      ∃ before after : Client, Client.ofJson prev.toJson = .ok before ∧
        Client.ofJson next.toJson = .ok after ∧
          ∀ order : List Fragment, order.Perm (prev.fragments options next) →
            before.applyAll order = (after, none) := by
  refine ⟨nodup_ids_fragments options prev next, fun fragment => id_of_keyed, fun key => ?_,
    ⟨prev.toSlot⟩, ⟨next.toSlot⟩, Client.ofJson_toJson hp, Client.ofJson_toJson hn,
    fun order ho => (fragments_lead_perm options hp hn ap an ho).applyAll⟩
  have hnodup := nodup_ids_fragments options prev next
  calc (prev.fragments options next).countP (fun fragment =>
        fragment.strategy == .keyed && fragment.id == KeyPath.text [key])
      ≤ (prev.fragments options next).countP ((· == KeyPath.text [key]) ∘ Fragment.id) :=
        List.countP_mono_left fun _ _ h => (Bool.and_eq_true_iff.mp h).2
    _ = ((prev.fragments options next).map Fragment.id).count (KeyPath.text [key]) :=
        List.countP_map.symm
    _ ≤ 1 := List.nodup_iff_count_le_one.mp hnodup _

/-- A slot with a tree, in which a text changes and a branch is taken that was not: the keyed
fragment for the text and the replacement of the branch can be applied either way round. -/
theorem fragments_independent_branch :
    let prev : RenderTree := ⟨["", ""], [.tree ["<b>", "</b>", ""] [.text "a", .empty]]⟩
    let next : RenderTree := ⟨["", ""], [.tree ["<b>", "</b>", ""] [.text "b", .tree ["!"] []]]⟩
    (prev.fragments {} next).map Fragment.id = ["0", "0.1"] ∧
      ∃ before after : Client, Client.ofJson prev.toJson = .ok before ∧
        Client.ofJson next.toJson = .ok after ∧
          before.applyAll (prev.fragments {} next).reverse = (after, none) := by
  intro prev next
  obtain ⟨-, -, -, before, after, hbefore, hafter, happly⟩ :=
    fragments_independent {} (show prev.sound = true by decide)
      (show next.sound = true by decide) (by decide) (by decide)
  exact ⟨by rfl, before, after, hbefore, hafter, happly _ (List.reverse_perm _)⟩

end RenderTree

end LiveTemplate
