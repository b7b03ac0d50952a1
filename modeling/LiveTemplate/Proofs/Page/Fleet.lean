import LiveTemplate.Proofs.Page.Basic

/-!
# Pages of one application

A `Fleet` is any number of pages of one application and the updates that are prepared on them, each
of which may be committed on any page.

* `Fleet.Valid` is what every action keeps (`Valid.step`).
* `Fleet.commit_home`: an update that is committed on the page on which it was prepared leads the
  client of that page to its new render.
* `Fleet.commit_leads_iff`: what is prepared on one state of a page leads from a state of another
  page, whenever it is accepted there, if and only if the two have different versions or the same
  render. A commit compares the versions only (`commit_across_pages`).
-/

namespace LiveTemplate

/-- What may be done with pages, which are named by their place among all pages, and with updates
that are prepared on them. A new page starts from any data that the application finds for it. -/
inductive FleetAction where
  | mint (data : Value)
  | update (page : Nat) (data : Value)
  | prepare (page : Nat) (data : Value)
  | copy (index : Nat)
  | drop (index : Nat)
  | commit (page index : Nat)

/-- A prepared update, the place of its page, and the page as it was then. -/
structure FleetTicket where
  home : Nat
  base : Page
  pending : PendingUpdate

/-- Pages, and the prepared updates that are held. -/
structure Fleet where
  pages : List Page
  held : List FleetTicket

namespace Fleet

/-- The fleet with another page in a place. -/
def setPage (fleet : Fleet) (index : Nat) (page : Page) : Fleet :=
  { fleet with pages := fleet.pages.set index page }

/-- The fleet with other updates. -/
def hold (fleet : Fleet) (held : List FleetTicket) : Fleet :=
  { fleet with held := held }

/-- The fleet after an action. What fails or names nothing leaves the pages as they are. -/
def step (application : Application) (fleet : Fleet) : FleetAction → Fleet
  | .mint data =>
    match Application.newPage { application with initial := data } with
    | .ok page => { fleet with pages := fleet.pages ++ [page] }
    | .error _ => fleet
  | .update index data =>
    match fleet.pages[index]? with
    | some page =>
      match page.update data with
      | .ok (next, _) => fleet.setPage index next
      | .error _ => fleet
    | none => fleet
  | .prepare index data =>
    match fleet.pages[index]? with
    | some page =>
      match page.prepare data with
      | .ok pending => fleet.hold (fleet.held ++ [⟨index, page, pending⟩])
      | .error _ => fleet
    | none => fleet
  | .copy index => fleet.hold (fleet.held ++ fleet.held[index]?.toList)
  | .drop index => fleet.hold (fleet.held.eraseIdx index)
  | .commit place index =>
    match fleet.pages[place]?, fleet.held[index]? with
    | some page, some ticket =>
      match page.commit ticket.pending with
      | .ok (next, _) => (fleet.setPage place next).hold (fleet.held.eraseIdx index)
      | .error _ => fleet.hold (fleet.held.eraseIdx index)
    | _, _ => fleet

/-- The fleet of an application after actions in order. -/
def run (application : Application) (actions : List FleetAction) : Fleet :=
  actions.foldl (step application) ⟨[], []⟩

/-! ## The invariant -/

/-- A page is one of an application, and its render is that of its data. -/
structure Owned (application : Application) (page : Page) : Prop where
  template : page.template = application.template
  options : page.options = application.options
  consistent : page.Consistent

/-- A prepared update was prepared on a page of the application, and the page in that place has
changed since or is still the same. -/
structure Kept (application : Application) (pages : List Page) (ticket : FleetTicket) : Prop where
  owned : Owned application ticket.base
  prepared : ∃ data, ticket.base.prepare data = .ok ticket.pending
  home : ∃ page, pages[ticket.home]? = some page ∧
    (ticket.base = page ∨ ticket.base.version < page.version)

/-- What every action keeps. -/
structure Valid (application : Application) (fleet : Fleet) : Prop where
  pages : ∀ page ∈ fleet.pages, Owned application page
  held : ∀ ticket ∈ fleet.held, Kept application fleet.pages ticket

variable {application : Application} {fleet : Fleet}

theorem Owned.advance {page : Page} {tree : RenderTree} {data : Value}
    (h : Owned application page) (hr : page.template.render data = .ok tree) :
    Owned application (page.advance tree data) :=
  ⟨h.template, h.options, hr⟩

/-- The update of a ticket renders its data with the template of the application. -/
theorem Kept.render {pages : List Page} {ticket : FleetTicket}
    (h : Kept application pages ticket) :
    application.template.render ticket.pending.data = .ok ticket.pending.tree := by
  obtain ⟨data, hp⟩ := h.prepared
  obtain ⟨tree, hr, he⟩ := Page.prepare_eq_ok.mp hp
  rw [he, ← h.owned.template]
  exact hr

namespace Valid

theorem mint (h : Valid application fleet) {page : Page} (hp : Owned application page) :
    Valid application { fleet with pages := fleet.pages ++ [page] } where
  pages := by
    intro other hm
    rcases List.mem_append.mp hm with hm | hm
    · exact h.pages other hm
    · exact List.mem_singleton.mp hm ▸ hp
  held := by
    intro ticket hm
    obtain ⟨owned, prepared, found, hf, hhome⟩ := h.held ticket hm
    refine ⟨owned, prepared, found, ?_, hhome⟩
    rw [List.getElem?_append_left (List.getElem?_eq_some_iff.mp hf).1]
    exact hf

/-- A page moves on to a later version. -/
theorem setPage (h : Valid application fleet) {index : Nat} {page next : Page}
    (hp : fleet.pages[index]? = some page) (hn : Owned application next)
    (hv : page.version < next.version) : Valid application (fleet.setPage index next) where
  pages := by
    intro other hm
    rcases List.mem_or_eq_of_mem_set hm with hm | rfl
    · exact h.pages other hm
    · exact hn
  held := by
    intro ticket hm
    obtain ⟨owned, prepared, found, hf, hhome⟩ := h.held ticket hm
    by_cases he : index = ticket.home
    · subst he
      cases hp.symm.trans hf
      refine ⟨owned, prepared, next, List.getElem?_set_self (List.getElem?_eq_some_iff.mp hf).1,
        .inr ?_⟩
      rcases hhome with rfl | hlt
      · exact hv
      · exact Nat.lt_trans hlt hv
    · refine ⟨owned, prepared, found, ?_, hhome⟩
      exact (List.getElem?_set_ne he).trans hf

theorem hold (h : Valid application fleet) {held : List FleetTicket}
    (hs : ∀ ticket ∈ held, Kept application fleet.pages ticket) :
    Valid application (fleet.hold held) :=
  ⟨h.pages, hs⟩

theorem eraseIdx (h : Valid application fleet) (index : Nat) :
    Valid application (fleet.hold (fleet.held.eraseIdx index)) :=
  h.hold fun ticket hm => h.held ticket (List.mem_of_mem_eraseIdx hm)

theorem step (h : Valid application fleet) (action : FleetAction) :
    Valid application (fleet.step application action) := by
  cases action with
  | mint data =>
    rw [Fleet.step]
    split
    · rename_i page hc
      obtain ⟨tree, hr, rfl⟩ := Page.create_eq_ok.mp hc
      exact h.mint ⟨rfl, rfl, hr⟩
    · exact h
  | update index data =>
    rw [Fleet.step]
    split
    · rename_i page hp
      split
      · rename_i next fragments hu
        obtain ⟨tree, hr, rfl, -⟩ := Page.update_eq_ok.mp hu
        have hown := h.pages page (List.mem_of_getElem? hp)
        exact h.setPage hp (hown.advance hr) (Nat.lt_succ_self _)
      · exact h
    · exact h
  | prepare index data =>
    rw [Fleet.step]
    split
    · rename_i page hp
      split
      · rename_i pending hpre
        refine h.hold fun ticket hm => ?_
        rcases List.mem_append.mp hm with hm | hm
        · exact h.held ticket hm
        · rw [List.mem_singleton.mp hm]
          exact ⟨h.pages page (List.mem_of_getElem? hp), ⟨data, hpre⟩, page, hp, .inl rfl⟩
      · exact h
    · exact h
  | copy index =>
    refine h.hold fun ticket hm => ?_
    rcases List.mem_append.mp hm with hm | hm
    · exact h.held ticket hm
    · exact h.held ticket (List.mem_of_getElem? (Option.mem_toList.mp hm))
  | drop index => exact h.eraseIdx index
  | commit place index =>
    rw [Fleet.step]
    split
    · rename_i page ticket hp ht
      have hkept := h.held ticket (List.mem_of_getElem? ht)
      split
      · rename_i next fragments hc
        obtain ⟨-, rfl, -⟩ := Page.commit_eq_ok.mp hc
        have hown := h.pages page (List.mem_of_getElem? hp)
        have hr := hkept.render
        rw [← hown.template] at hr
        exact (h.setPage hp (hown.advance hr) (Nat.lt_succ_self _)).eraseIdx index
      · exact h.eraseIdx index
    · exact h

end Valid

theorem run_valid (application : Application) (actions : List FleetAction) :
    Valid application (run application actions) := by
  have hrun (fleet : Fleet) (h : Valid application fleet) :
      Valid application (actions.foldl (step application) fleet) := by
    induction actions generalizing fleet with
    | nil => exact h
    | cons action rest ih => exact ih _ (h.step action)
  exact hrun _ ⟨fun _ hm => (nomatch hm), fun _ hm => nomatch hm⟩

/-! ## Commits -/

/-- A client of a page that applies fragments has the render of another page. -/
def Follows (page next : Page) (fragments : List Fragment) : Prop :=
  Client.applyAll ⟨page.tree.toSlot⟩ fragments = (⟨next.tree.toSlot⟩, none)

section Commit

variable {base page next : Page} {pending : PendingUpdate} {fragments : List Fragment}
  {data : Value}

/-- What was prepared on a page leads from any page with the same render. -/
theorem Owned.follows (hb : Owned application base) (hp : base.prepare data = .ok pending)
    (hc : page.commit pending = .ok (next, fragments)) (ht : base.tree = page.tree)
    (ab : base.tree.addressable = true) (an : pending.tree.addressable = true) :
    Follows page next fragments := by
  obtain ⟨tree, hr, rfl⟩ := Page.prepare_eq_ok.mp hp
  obtain ⟨-, rfl, rfl⟩ := Page.commit_eq_ok.mp hc
  rw [Follows, ← ht]
  exact hb.consistent.applyAll_fragments hr ab an

/-- An update that is committed on its own page leads the client of that page to its new render. -/
theorem Valid.commit_home (h : Valid application fleet) {ticket : FleetTicket}
    (hm : ticket ∈ fleet.held) (hp : fleet.pages[ticket.home]? = some page)
    (hc : page.commit ticket.pending = .ok (next, fragments))
    (ap : page.tree.addressable = true) (an : next.tree.addressable = true) :
    Follows page next fragments := by
  obtain ⟨owned, ⟨data, hprep⟩, found, hf, hhome⟩ := h.held ticket hm
  cases hp.symm.trans hf
  obtain ⟨hv, rfl, -⟩ := Page.commit_eq_ok.mp hc
  obtain ⟨tree, -, hpending⟩ := Page.prepare_eq_ok.mp hprep
  have hbase : ticket.base = page := by
    rcases hhome with he | hlt
    · exact he
    · rw [hv, hpending] at hlt
      exact absurd hlt (Nat.lt_irrefl _)
  rw [← hbase] at ap
  exact owned.follows hprep hc (congrArg Page.tree hbase) ap an

end Commit

/-- Whatever is prepared on a page of the application and accepted on some page, at any time, leads
the client of the latter to its new render, if and only if the two pages have different versions or
the same render. -/
theorem commit_leads_iff {application : Application} {actions : List FleetAction}
    {base : Page} (hb : base ∈ (run application actions).pages)
    (ab : base.tree.addressable = true) (page : Page) :
    (∀ data pending next fragments, base.prepare data = .ok pending →
      pending.tree.addressable = true → page.commit pending = .ok (next, fragments) →
        Follows page next fragments) ↔
      (base.version = page.version → base.tree = page.tree) := by
  have hbase := (run_valid application actions).pages base hb
  constructor
  · intro h hv
    -- The update of the base to its own data has no fragments.
    have hprep := Page.prepare_eq_ok.mpr ⟨base.tree, hbase.consistent, rfl⟩
    have hcommit : page.commit ⟨base.version, base.tree, base.data,
        base.tree.fragments base.options base.tree⟩ =
          .ok (page.advance base.tree base.data, base.tree.fragments base.options base.tree) :=
      Page.commit_eq_ok.mpr ⟨hv.symm, rfl, rfl⟩
    have hfollows := h _ _ _ _ hprep ab hcommit
    rw [RenderTree.fragments_self _ hbase.consistent.sound] at hfollows
    have hroot : page.tree.toSlot = base.tree.toSlot :=
      congrArg (fun outcome => outcome.1.root) hfollows
    exact (RenderTree.toSlot_inj hroot).symm
  · intro h data pending next fragments hprep an hcommit
    obtain ⟨tree, -, hpending⟩ := Page.prepare_eq_ok.mp hprep
    obtain ⟨hv, -, -⟩ := Page.commit_eq_ok.mp hcommit
    rw [hpending] at hv
    exact hbase.follows hprep hcommit (h hv.symm) ab an

/-- For a page that shows something else, but has been updated as often. -/
theorem commit_leads_iff_echo :
    (∀ data pending next fragments,
      Page.prepare ⟨echo, {}, ⟨["", ""], [.text "b"]⟩, .text "b", 1⟩ data = .ok pending →
        pending.tree.addressable = true →
          Page.commit ⟨echo, {}, ⟨["", ""], [.text "c"]⟩, .text "c", 1⟩ pending =
            .ok (next, fragments) →
              Follows ⟨echo, {}, ⟨["", ""], [.text "c"]⟩, .text "c", 1⟩ next fragments) ↔
      (1 = 1 → (⟨["", ""], [.text "b"]⟩ : RenderTree) = ⟨["", ""], [.text "c"]⟩) :=
  @commit_leads_iff ⟨echo, .text "a", {}⟩ [.mint (.text "a"), .update 0 (.text "b")]
    ⟨echo, {}, ⟨["", ""], [.text "b"]⟩, .text "b", 1⟩ (List.mem_singleton_self _) rfl
    ⟨echo, {}, ⟨["", ""], [.text "c"]⟩, .text "c", 1⟩

/-- Two pages are updated to different data, and an update that is prepared on the first one for
what it shows already is committed on the second one. It is accepted there without a fragment, so
that the client of the second page keeps what it had. -/
theorem commit_across_pages :
    ∃ ticket page next fragments,
      (run ⟨echo, .text "a", {}⟩ [.mint (.text "a"), .mint (.text "a"), .update 0 (.text "b"),
        .update 1 (.text "c"), .prepare 0 (.text "b")]).held[0]? = some ticket ∧
      (run ⟨echo, .text "a", {}⟩ [.mint (.text "a"), .mint (.text "a"), .update 0 (.text "b"),
        .update 1 (.text "c"), .prepare 0 (.text "b")]).pages[1]? = some page ∧
      page.commit ticket.pending = .ok (next, fragments) ∧
      (Client.applyAll ⟨page.tree.toSlot⟩ fragments).1.text = "c" ∧ next.tree.text = "b" ∧
      ¬ Follows page next fragments := by
  refine ⟨_, _, _, _, rfl, rfl, rfl, rfl, rfl, fun h => ?_⟩
  have htext := congrArg (fun outcome => outcome.1.text) h
  exact absurd htext (by decide)

end Fleet

end LiveTemplate
