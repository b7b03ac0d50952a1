import LiveTemplate.Proofs.Page.Basic
import LiveTemplate.Proofs.Render.Parity
import Mathlib.Data.List.Induction
import Mathlib.Data.List.Infix

/-!
# Sessions with one page

A `Session` is a page, the updates that are prepared on it and not yet committed or dropped, and
what each action so far was answered. Prepared updates may be copied, and the actions come in any
order.

* `Session.Valid` is what every action keeps (`Valid.step`). It says of each prepared update that
  its fragments fit as long as the version of the page is the one that it was prepared for.
* `Valid.turn`: all that an action can do to a valid session, in two cases (`Turn`).
* `Session.run_spec`: what holds after any actions.
-/

namespace LiveTemplate

/-- What may be done with a page and the updates that are prepared on it. These are named by their
place among those that are held. -/
inductive PageAction where
  | update (data : Value)
  | prepare (data : Value)
  | copy (index : Nat)
  | commit (index : Nat)
  | drop (index : Nat)

/-- The answer to an action. A commit that succeeds tells the number of the action by which its
update was prepared. -/
inductive PageAnswer where
  | updated (fragments : List Fragment)
  | committed (made : Nat) (fragments : List Fragment)
  | failed (error : EvaluationError)
  | stale (stale : StaleUpdate)
  | prepared
  | copied
  | dropped
  | absent

namespace PageAnswer

/-- Whether an action has changed the page. -/
def isChange : PageAnswer → Bool
  | .updated _ => true
  | .committed _ _ => true
  | _ => false

/-- The fragments that go to the client. -/
def fragments : PageAnswer → List Fragment
  | .updated fragments => fragments
  | .committed _ fragments => fragments
  | _ => []

/-- The number of the action by which the update that was committed was prepared. -/
def made? : PageAnswer → Option Nat
  | .committed made _ => some made
  | _ => none

theorem fragments_of_not_isChange {answer : PageAnswer} (h : answer.isChange = false) :
    answer.fragments = [] := by
  cases answer with
  | updated fragments => cases h
  | committed made fragments => cases h
  | _ => rfl

theorem isChange_of_made? {answer : PageAnswer} {made : Nat} (h : answer.made? = some made) :
    answer.isChange = true := by
  cases answer with
  | committed made fragments => rfl
  | _ => cases h

end PageAnswer

/-- A prepared update with the number of the action by which it was prepared. Its copies have the
same number. -/
structure Ticket where
  made : Nat
  pending : PendingUpdate

/-- A page, the prepared updates that are held, and the answers so far. -/
structure Session where
  page : Page
  held : List Ticket
  answers : List PageAnswer

namespace Session

/-- A session with a page before any action. -/
def start (page : Page) : Session :=
  ⟨page, [], []⟩

/-- What an action makes of the page and of the updates that are held, and its answer. A commit
takes the update away whether it succeeds or not. -/
def perform (session : Session) : PageAction → Page × List Ticket × PageAnswer
  | .update data =>
    match session.page.update data with
    | .ok (page, fragments) => (page, session.held, .updated fragments)
    | .error e => (session.page, session.held, .failed e)
  | .prepare data =>
    match session.page.prepare data with
    | .ok pending =>
      (session.page, session.held ++ [⟨session.answers.length, pending⟩], .prepared)
    | .error e => (session.page, session.held, .failed e)
  | .copy index =>
    match session.held[index]? with
    | some ticket => (session.page, session.held ++ [ticket], .copied)
    | none => (session.page, session.held, .absent)
  | .commit index =>
    match session.held[index]? with
    | some ticket =>
      match session.page.commit ticket.pending with
      | .ok (page, fragments) =>
        (page, session.held.eraseIdx index, .committed ticket.made fragments)
      | .error stale => (session.page, session.held.eraseIdx index, .stale stale)
    | none => (session.page, session.held, .absent)
  | .drop index =>
    (session.page, session.held.eraseIdx index,
      if index < session.held.length then .dropped else .absent)

/-- The answer to an action. -/
def answer (session : Session) (action : PageAction) : PageAnswer :=
  (session.perform action).2.2

/-- The session after an action. -/
def step (session : Session) (action : PageAction) : Session :=
  let (page, held, answer) := session.perform action
  ⟨page, held, session.answers ++ [answer]⟩

/-- The session after actions in order. -/
def run (session : Session) (actions : List PageAction) : Session :=
  actions.foldl step session

/-- The number of changes among some answers. -/
def changes (answers : List PageAnswer) : Nat :=
  answers.countP PageAnswer.isChange

theorem changes_append (answers others : List PageAnswer) :
    changes (answers ++ others) = changes answers + changes others :=
  List.countP_append

theorem changes_eq_zero {answers : List PageAnswer} :
    changes answers = 0 ↔ ∀ answer ∈ answers, answer.isChange = false := by
  rw [changes, List.countP_eq_zero]
  simp only [Bool.not_eq_true]

/-! ## What each action does -/

section Perform

variable {session : Session} {data : Value} {tree : RenderTree} {error : EvaluationError}

theorem perform_update (h : session.page.template.render data = .ok tree) :
    session.perform (.update data) = (session.page.advance tree data, session.held,
      .updated (session.page.tree.fragments session.page.options tree)) := by
  rw [perform, Page.update_eq_ok.mpr ⟨tree, h, rfl, rfl⟩]

theorem perform_update_failed (h : session.page.template.render data = .error error) :
    session.perform (.update data) = (session.page, session.held, .failed error) := by
  rw [perform, Page.update_of_render_error h]

theorem perform_prepare (h : session.page.template.render data = .ok tree) :
    session.perform (.prepare data) = (session.page,
      session.held ++ [⟨session.answers.length, session.page.version, tree, data,
        session.page.tree.fragments session.page.options tree⟩], .prepared) := by
  rw [perform, Page.prepare_eq_ok.mpr ⟨tree, h, rfl⟩]

theorem perform_prepare_failed (h : session.page.template.render data = .error error) :
    session.perform (.prepare data) = (session.page, session.held, .failed error) := by
  rw [perform, Page.prepare_of_render_error h]

variable {index : Nat} {ticket : Ticket}

theorem perform_commit (ht : session.held[index]? = some ticket)
    (hv : session.page.version = ticket.pending.baseVersion) :
    session.perform (.commit index) =
      (session.page.advance ticket.pending.tree ticket.pending.data, session.held.eraseIdx index,
        .committed ticket.made ticket.pending.fragments) := by
  have hc := Page.commit_eq_ok.mpr ⟨hv, rfl, rfl⟩
  simp only [perform, ht, hc]

theorem perform_commit_stale (ht : session.held[index]? = some ticket)
    (hv : session.page.version ≠ ticket.pending.baseVersion) :
    session.perform (.commit index) = (session.page, session.held.eraseIdx index,
      .stale ⟨ticket.pending.baseVersion, session.page.version⟩) := by
  have hc : session.page.commit ticket.pending =
      .error ⟨ticket.pending.baseVersion, session.page.version⟩ := if_neg hv
  simp only [perform, ht, hc]

end Perform

/-! ## The invariant -/

/-- A prepared update belongs to a page with a history: it was prepared for the version after the
changes up to then, and while the page has this version, the fragments are those from its render. -/
structure Belongs (page : Page) (answers : List PageAnswer) (ticket : Ticket) : Prop where
  made_lt : ticket.made < answers.length
  base : ticket.pending.baseVersion = changes (answers.take ticket.made)
  render : page.template.render ticket.pending.data = .ok ticket.pending.tree
  fragments : ticket.pending.baseVersion = page.version →
    ticket.pending.fragments = page.tree.fragments page.options ticket.pending.tree

/-- A commit comes after the action by which its update was prepared, and no two commits name the
same action. -/
structure Orderly (answers : List PageAnswer) : Prop where
  made_lt : ∀ (index made : Nat) (answer : PageAnswer), answers[index]? = some answer →
    answer.made? = some made → made < index
  once : (answers.filterMap PageAnswer.made?).Nodup

/-- What every action keeps. -/
structure Valid (session : Session) : Prop where
  consistent : session.page.Consistent
  version : session.page.version = changes session.answers
  held : ∀ ticket ∈ session.held, Belongs session.page session.answers ticket
  orderly : Orderly session.answers

theorem start_valid {page : Page} (h : page.Consistent) (hv : page.version = 0) :
    (start page).Valid where
  consistent := h
  version := hv
  held := fun _ hm => nomatch hm
  orderly := ⟨fun _ _ _ h => (nomatch h), List.nodup_nil⟩

namespace Orderly

variable {answers : List PageAnswer} {answer : PageAnswer} {made : Nat}

/-- What was committed has changed the page since it was prepared. -/
theorem not_committed (h : Orderly answers)
    (hn : ∀ other ∈ answers.drop made, other.isChange = false) :
    made ∉ answers.filterMap PageAnswer.made? := by
  intro hm
  obtain ⟨other, hmem, hmade⟩ := List.mem_filterMap.mp hm
  obtain ⟨index, hi⟩ := List.getElem?_of_mem hmem
  have hlt := h.made_lt index made other hi hmade
  have hget : (answers.drop made)[index - made]? = some other := by
    rw [List.getElem?_drop, show made + (index - made) = index by omega, hi]
  have hkeep := hn other (List.mem_of_getElem? hget)
  rw [PageAnswer.isChange_of_made? hmade] at hkeep
  cases hkeep

theorem snoc (h : Orderly answers)
    (hm : ∀ made, answer.made? = some made →
      made < answers.length ∧ ∀ other ∈ answers.drop made, other.isChange = false) :
    Orderly (answers ++ [answer]) where
  made_lt := by
    intro index made other hi hmade
    by_cases hl : index < answers.length
    · rw [List.getElem?_append_left hl] at hi
      exact h.made_lt index made other hi hmade
    · rw [List.getElem?_append_right (Nat.le_of_not_lt hl)] at hi
      rw [List.mem_singleton.mp (List.mem_of_getElem? hi)] at hmade
      exact Nat.lt_of_lt_of_le (hm made hmade).1 (Nat.le_of_not_lt hl)
  once := by
    rw [List.filterMap_append]
    cases hmade : answer.made? with
    | none =>
      rw [List.filterMap_cons_none hmade, List.filterMap_nil, List.append_nil]
      exact h.once
    | some made =>
      rw [List.filterMap_cons_some hmade, List.filterMap_nil, List.nodup_append]
      refine ⟨h.once, List.nodup_singleton _, ?_⟩
      rintro _ hmem _ hsame rfl
      rw [List.mem_singleton.mp hsame] at hmem
      exact h.not_committed (hm made hmade).2 hmem

end Orderly

namespace Belongs

variable {page : Page} {answers : List PageAnswer} {ticket : Ticket}

/-- The page has the version for which an update was prepared if nothing has changed since. -/
theorem version_eq_iff (h : Belongs page answers ticket) (hv : page.version = changes answers) :
    page.version = ticket.pending.baseVersion ↔
      ∀ answer ∈ answers.drop ticket.made, answer.isChange = false := by
  have hsplit := changes_append (answers.take ticket.made) (answers.drop ticket.made)
  rw [List.take_append_drop] at hsplit
  rw [← changes_eq_zero, hv, h.base]
  omega

theorem answered (h : Belongs page answers ticket) (answer : PageAnswer) :
    Belongs page (answers ++ [answer]) ticket where
  made_lt := by
    rw [List.length_append]
    exact Nat.lt_succ_of_lt h.made_lt
  base := by rw [h.base, List.take_append_of_le_length (Nat.le_of_lt h.made_lt)]
  render := h.render
  fragments := h.fragments

/-- After a change no update fits that was prepared before. -/
theorem advance (h : Belongs page answers ticket) (hv : page.version = changes answers)
    (tree : RenderTree) (data : Value) (answer : PageAnswer) :
    Belongs (page.advance tree data) (answers ++ [answer]) ticket where
  made_lt := (h.answered answer).made_lt
  base := (h.answered answer).base
  render := h.render
  fragments := by
    intro he
    have hle : changes (answers.take ticket.made) ≤ changes answers :=
      (List.take_sublist _ _).countP_le
    rw [h.base, Page.advance_version, hv] at he
    omega

/-- An update that has just been prepared. -/
theorem prepared {data : Value} {pending : PendingUpdate} (hv : page.version = changes answers)
    (h : page.prepare data = .ok pending) (answer : PageAnswer) :
    Belongs page (answers ++ [answer]) ⟨answers.length, pending⟩ := by
  obtain ⟨tree, hr, rfl⟩ := Page.prepare_eq_ok.mp h
  refine ⟨?_, ?_, hr, fun _ => rfl⟩
  · rw [List.length_append]
    exact Nat.lt_succ_self _
  · rw [List.take_left]
    exact hv

end Belongs

/-! ## One action -/

/-- An action prepares the update of a ticket. -/
def Made (session : Session) (action : PageAction) (ticket : Ticket) : Prop :=
  ∃ data, action = .prepare data ∧ ticket.made = session.answers.length ∧
    session.page.prepare data = .ok ticket.pending

/-- The two things that an action can do to a session: change the page in the way that its client
is told, or leave the page as it is. -/
inductive Turn (session : Session) (action : PageAction) : Page × List Ticket × PageAnswer → Prop
  | change {tree : RenderTree} {data : Value} {held : List Ticket} {answer : PageAnswer}
      (isChange : answer.isChange = true)
      (render : session.page.template.render data = .ok tree)
      (fragments : answer.fragments = session.page.tree.fragments session.page.options tree)
      (held_old : ∀ ticket ∈ held, ticket ∈ session.held)
      (first : ∀ made, answer.made? = some made → made < session.answers.length ∧
        ∀ other ∈ session.answers.drop made, other.isChange = false) :
      Turn session action (session.page.advance tree data, held, answer)
  | keep {held : List Ticket} {answer : PageAnswer} (isChange : answer.isChange = false)
      (held_old : ∀ ticket ∈ held, ticket ∈ session.held ∨ session.Made action ticket) :
      Turn session action (session.page, held, answer)

variable {session : Session}

theorem Valid.turn (h : session.Valid) (action : PageAction) :
    session.Turn action (session.perform action) := by
  have hsame : ∀ ticket ∈ session.held, ticket ∈ session.held ∨ session.Made action ticket :=
    fun _ hm => .inl hm
  have hremove (index : Nat) : ∀ ticket ∈ session.held.eraseIdx index,
      ticket ∈ session.held ∨ session.Made action ticket :=
    fun _ hm => .inl (List.mem_of_mem_eraseIdx hm)
  cases action with
  | update data =>
    cases hr : session.page.template.render data with
    | ok tree =>
      rw [perform_update hr]
      exact .change rfl hr rfl (fun _ hm => hm) (fun _ hm => nomatch hm)
    | error error =>
      rw [perform_update_failed hr]
      exact .keep rfl hsame
  | prepare data =>
    cases hr : session.page.template.render data with
    | ok tree =>
      rw [perform_prepare hr]
      refine .keep rfl fun ticket hm => ?_
      rcases List.mem_append.mp hm with hm | hm
      · exact .inl hm
      · rw [List.mem_singleton.mp hm]
        exact .inr ⟨data, rfl, rfl, Page.prepare_eq_ok.mpr ⟨tree, hr, rfl⟩⟩
    | error error =>
      rw [perform_prepare_failed hr]
      exact .keep rfl hsame
  | copy index =>
    rw [perform]
    split
    · rename_i ticket ht
      refine .keep rfl fun other hm => .inl ?_
      rcases List.mem_append.mp hm with hm | hm
      · exact hm
      · rw [List.mem_singleton.mp hm]
        exact List.mem_of_getElem? ht
    · exact .keep rfl hsame
  | commit index =>
    cases ht : session.held[index]? with
    | none =>
      simp only [perform, ht]
      exact .keep rfl hsame
    | some ticket =>
      have hb := h.held ticket (List.mem_of_getElem? ht)
      by_cases hv : session.page.version = ticket.pending.baseVersion
      · rw [perform_commit ht hv]
        refine .change rfl hb.render (hb.fragments hv.symm)
          (fun _ hm => List.mem_of_mem_eraseIdx hm) ?_
        rintro _ ⟨⟩
        exact ⟨hb.made_lt, (hb.version_eq_iff h.version).mp hv⟩
      · rw [perform_commit_stale ht hv]
        exact .keep rfl (hremove index)
  | drop index =>
    rw [perform]
    split
    · exact .keep rfl (hremove index)
    · exact .keep rfl (hremove index)

theorem Valid.step (h : session.Valid) (action : PageAction) : (session.step action).Valid := by
  have hturn := h.turn action
  rw [Session.step]
  generalize session.perform action = turn at hturn
  cases hturn with
  | @change tree data held answer isChange render fragments held_old first =>
    refine ⟨render, ?_, ?_, h.orderly.snoc first⟩
    · have hone : changes [answer] = 1 := List.countP_cons_of_pos isChange
      rw [changes_append, hone, ← h.version]
      rfl
    · exact fun ticket hm => (h.held ticket (held_old ticket hm)).advance h.version tree data answer
  | @keep held answer isChange held_old =>
    refine ⟨h.consistent, ?_, ?_, h.orderly.snoc fun made hm => ?_⟩
    · have hzero : changes [answer] = 0 :=
        changes_eq_zero.mpr fun other hm => List.mem_singleton.mp hm ▸ isChange
      rw [changes_append, hzero]
      exact h.version
    · intro ticket hm
      rcases held_old ticket hm with hm | ⟨data, -, hmade, hp⟩
      · exact (h.held ticket hm).answered answer
      · obtain ⟨made, pending⟩ := ticket
        subst hmade
        exact .prepared h.version hp answer
    · rw [PageAnswer.isChange_of_made? hm] at isChange
      cases isChange

/-- An answer that is no change leaves the page as it was. -/
theorem Valid.step_page (h : session.Valid) {action : PageAction}
    (hc : (session.answer action).isChange = false) :
    (session.step action).page = session.page := by
  have hturn := h.turn action
  rw [answer] at hc
  rw [Session.step]
  generalize session.perform action = turn at hturn hc
  cases hturn with
  | change isChange => exact absurd (hc.symm.trans isChange) (by decide)
  | keep => rfl

/-- A commit succeeds if nothing has changed since its update was prepared. -/
theorem Valid.commit_isChange (h : session.Valid) {index : Nat} {ticket : Ticket}
    (ht : session.held[index]? = some ticket) :
    (session.answer (.commit index)).isChange = true ↔
      ∀ answer ∈ session.answers.drop ticket.made, answer.isChange = false := by
  have hb := h.held ticket (List.mem_of_getElem? ht)
  rw [← hb.version_eq_iff h.version]
  by_cases hv : session.page.version = ticket.pending.baseVersion
  · refine iff_of_true ?_ hv
    rw [answer, perform_commit ht hv]
    rfl
  · refine iff_of_false ?_ hv
    rw [answer, perform_commit_stale ht hv]
    exact Bool.false_ne_true

/-! ## The client -/

/-- A client with the first render that applies all fragments has the render of the page. -/
def Synced (client : Client) (session : Session) : Prop :=
  client.applyAll (session.answers.flatMap PageAnswer.fragments) =
    (⟨session.page.tree.toSlot⟩, none)

theorem Synced.step {client : Client} (hs : Synced client session) (h : session.Valid)
    {action : PageAction} (ao : session.page.tree.addressable = true)
    (an : (session.step action).page.tree.addressable = true) :
    Synced client (session.step action) := by
  have hturn := h.turn action
  rw [Session.step] at an ⊢
  generalize session.perform action = turn at hturn an
  cases hturn with
  | @change tree data held answer isChange render fragments held_old first =>
    have hnext := h.consistent.applyAll_fragments render ao an
    rw [← fragments] at hnext
    rw [Synced, List.flatMap_append, List.flatMap_singleton, Client.applyAll,
      Outcome.all_append hs]
    exact hnext
  | @keep held answer isChange held_old =>
    rw [Synced, List.flatMap_append, List.flatMap_singleton,
      PageAnswer.fragments_of_not_isChange isChange, List.append_nil]
    exact hs

/-! ## Any actions -/

theorem Valid.run (h : session.Valid) (actions : List PageAction) :
    (session.run actions).Valid := by
  induction actions generalizing session with
  | nil => exact h
  | cons action rest ih => exact ih (h.step action)

/-- The template and the options of a page stay what they are. -/
theorem Valid.step_settings (h : session.Valid) (action : PageAction) :
    (session.step action).page.template = session.page.template ∧
      (session.step action).page.options = session.page.options := by
  have hturn := h.turn action
  rw [Session.step]
  generalize session.perform action = turn at hturn
  cases hturn <;> exact ⟨rfl, rfl⟩

theorem Valid.run_settings (h : session.Valid) (actions : List PageAction) :
    (session.run actions).page.template = session.page.template ∧
      (session.run actions).page.options = session.page.options := by
  induction actions generalizing session with
  | nil => exact ⟨rfl, rfl⟩
  | cons action rest ih =>
    obtain ⟨htemplate, hoptions⟩ := ih (h.step action)
    obtain ⟨hfirst, hfirstOptions⟩ := h.step_settings action
    exact ⟨htemplate.trans hfirst, hoptions.trans hfirstOptions⟩

theorem Synced.run {client : Client} (hs : Synced client session) (h : session.Valid)
    {actions : List PageAction}
    (ha : ∀ before, before <+: actions → (session.run before).page.tree.addressable = true) :
    Synced client (session.run actions) := by
  induction actions generalizing session with
  | nil => exact hs
  | cons action rest ih =>
    have ao := ha [] (List.nil_prefix)
    have an := ha [action] ⟨rest, rfl⟩
    exact ih (hs.step h ao an) (h.step action) fun before hb =>
      ha (action :: before) (List.cons_prefix_cons.mpr ⟨rfl, hb⟩)

theorem run_append (session : Session) (actions : List PageAction) (action : PageAction) :
    session.run (actions ++ [action]) = (session.run actions).step action := by
  rw [Session.run, List.foldl_append]
  rfl

theorem length_answers_run (page : Page) (actions : List PageAction) :
    ((start page).run actions).answers.length = actions.length := by
  induction actions using List.reverseRecOn with
  | nil => rfl
  | append_singleton actions action ih =>
    rw [run_append, step, List.length_append, List.length_append, ih]
    rfl

/-- What is held was prepared on the page as it was at the action that the ticket names. -/
theorem held_prepared {page : Page} (h : (start page).Valid) {actions : List PageAction}
    {ticket : Ticket} (hm : ticket ∈ ((start page).run actions).held) :
    ∃ data, actions[ticket.made]? = some (.prepare data) ∧
      ((start page).run (actions.take ticket.made)).page.prepare data = .ok ticket.pending := by
  induction actions using List.reverseRecOn with
  | nil => cases hm
  | append_singleton actions action ih =>
    have hvalid := h.run actions
    have hold (hm : ticket ∈ ((start page).run actions).held) :
        ∃ data, (actions ++ [action])[ticket.made]? = some (.prepare data) ∧
          ((start page).run ((actions ++ [action]).take ticket.made)).page.prepare data =
            .ok ticket.pending := by
      have hlt := (hvalid.held ticket hm).made_lt
      rw [length_answers_run] at hlt
      rw [List.getElem?_append_left hlt, List.take_append_of_le_length (Nat.le_of_lt hlt)]
      exact ih hm
    have hturn := hvalid.turn action
    rw [run_append, step] at hm
    generalize ((start page).run actions).perform action = turn at hturn hm
    cases hturn with
    | change isChange render fragments held_old => exact hold (held_old ticket hm)
    | keep isChange held_old =>
      rcases held_old ticket hm with hm | ⟨data, rfl, hmade, hp⟩
      · exact hold hm
      · rw [length_answers_run] at hmade
        refine ⟨data, ?_, ?_⟩
        · rw [hmade, List.getElem?_concat_length]
        · rw [hmade, List.take_left]
          exact hp

/-- What is held was prepared from a render of its data, against the page as it was then. -/
theorem held_eq {page : Page} (h : (start page).Valid) {actions : List PageAction}
    {ticket : Ticket} (hm : ticket ∈ ((start page).run actions).held) :
    ∃ data tree, actions[ticket.made]? = some (.prepare data) ∧
      page.template.render data = .ok tree ∧
      let before := ((start page).run (actions.take ticket.made)).page
      before.prepare data = .ok ticket.pending ∧
        ticket.pending =
          ⟨before.version, tree, data, before.tree.fragments page.options tree⟩ := by
  obtain ⟨data, haction, hprepare⟩ := held_prepared h hm
  obtain ⟨htemplate, hoptions⟩ := h.run_settings (actions.take ticket.made)
  obtain ⟨tree, hr, hpending⟩ := Page.prepare_eq_ok.mp hprepare
  rw [htemplate] at hr
  rw [hoptions] at hpending
  exact ⟨data, tree, haction, hr, hprepare, hpending⟩

/-- After any actions with a new page, in any order:

* the page has the render of its data, and its version is the number of changes;
* an update to data with a render is a change: the page has this data and this render then, and the
  answer leads there from the render before it. Preparing it leaves the page as it is, and holds the
  update for later;
* an update to data without a render fails with the same error, and so does preparing it;
* an action that is no change, such as a failed update or a stale commit, leaves the page as it is;
* an update that is held was prepared at one action, against the page as it was then;
* a commit succeeds if and only if there was no change since its update was prepared, and the page
  has the data and the render of that update then. Otherwise the update is stale. No two commits
  succeed with one update and its copies;
* a client that was given the first render and applies all fragments in order shows what the
  template writes for the data, as long as fragments can address the renders of the page. -/
theorem run_spec {template : Template} {options : UpdateOptions} {data : Value} {page : Page}
    (hc : Page.create template data options = .ok page) (actions : List PageAction) :
    let session := (start page).run actions
    (template.render session.page.data = .ok session.page.tree ∧
      session.page.version = changes session.answers) ∧
    (∀ input tree, template.render input = .ok tree →
      let fragments := session.page.tree.fragments options tree
      (session.answer (.update input) = .updated fragments ∧
        (session.step (.update input)).page =
          ⟨template, options, tree, input, session.page.version + 1⟩) ∧
      session.step (.prepare input) =
        ⟨session.page,
          session.held ++ [⟨actions.length, session.page.version, tree, input, fragments⟩],
          session.answers ++ [.prepared]⟩) ∧
    (∀ input error, template.render input = .error error →
      session.answer (.update input) = .failed error ∧
        session.answer (.prepare input) = .failed error) ∧
    (∀ action, (session.answer action).isChange = false →
      (session.step action).page = session.page) ∧
    (∀ index ticket, session.held[index]? = some ticket →
      (∃ input tree, actions[ticket.made]? = some (.prepare input) ∧
        template.render input = .ok tree ∧
        let before := ((start page).run (actions.take ticket.made)).page
        before.prepare input = .ok ticket.pending ∧
          ticket.pending =
            ⟨before.version, tree, input, before.tree.fragments options tree⟩) ∧
      ((session.answer (.commit index)).isChange = true ↔
        ∀ answer ∈ session.answers.drop ticket.made, answer.isChange = false) ∧
      ((session.answer (.commit index) =
          .committed ticket.made ticket.pending.fragments ∧
        (session.step (.commit index)).page =
          ⟨template, options, ticket.pending.tree, ticket.pending.data,
            session.page.version + 1⟩) ∨
        session.answer (.commit index) =
          .stale ⟨ticket.pending.baseVersion, session.page.version⟩)) ∧
    (session.answers.filterMap PageAnswer.made?).Nodup ∧
    ((∀ before, before <+: actions → ((start page).run before).page.tree.addressable = true) →
      ∃ client shown : Client, Client.ofJson page.tree.toJson = .ok client ∧
        client.applyAll (session.answers.flatMap PageAnswer.fragments) = (shown, none) ∧
        template.execute session.page.data = .ok shown.text) := by
  intro session
  have hconsistent := Page.Consistent.create hc
  obtain ⟨tree, hr, rfl⟩ := Page.create_eq_ok.mp hc
  have hstart := start_valid hconsistent rfl
  have hvalid : session.Valid := hstart.run actions
  obtain ⟨htemplate, hoptions⟩ := hstart.run_settings actions
  replace htemplate : session.page.template = template := htemplate
  replace hoptions : session.page.options = options := hoptions
  have hadvance (tree : RenderTree) (input : Value) : session.page.advance tree input =
      ⟨template, options, tree, input, session.page.version + 1⟩ := by
    rw [Page.advance, htemplate, hoptions]
  have hrender : template.render session.page.data = .ok session.page.tree :=
    htemplate ▸ hvalid.consistent
  refine ⟨⟨hrender, hvalid.version⟩, fun input tree hi => ?_, fun input error hi => ?_,
    fun _ => hvalid.step_page, fun index ticket ht => ⟨?_, hvalid.commit_isChange ht, ?_⟩,
    hvalid.orderly.once, fun ha => ?_⟩
  · have hupdate := perform_update (htemplate.symm ▸ hi)
    have hprepare := perform_prepare (htemplate.symm ▸ hi)
    rw [hoptions] at hupdate hprepare
    rw [length_answers_run] at hprepare
    refine ⟨⟨?_, ?_⟩, ?_⟩
    · rw [answer, hupdate]
    · rw [step, hupdate]
      exact hadvance tree input
    · rw [step, hprepare]
  · refine ⟨?_, ?_⟩
    · rw [answer, perform_update_failed (htemplate.symm ▸ hi)]
    · rw [answer, perform_prepare_failed (htemplate.symm ▸ hi)]
  · exact held_eq hstart (List.mem_of_getElem? ht)
  · by_cases hv : session.page.version = ticket.pending.baseVersion
    · refine .inl ⟨?_, ?_⟩
      · rw [answer, perform_commit ht hv]
      · rw [step, perform_commit ht hv]
        exact hadvance _ _
    · refine .inr ?_
      rw [answer, perform_commit_stale ht hv]
  · have hsynced : Synced ⟨tree.toSlot⟩ (start ⟨template, options, tree, data, 0⟩) := rfl
    refine ⟨⟨tree.toSlot⟩, _, Client.ofJson_toJson hconsistent.sound, hsynced.run hstart ha, ?_⟩
    rw [← Template.map_text_render]
    exact congrArg (Except.map RenderTree.text) hrender

/-- A template that prints the field `x` of its data. -/
def echoX : Template :=
  ⟨[.print ⟨none, [.operand (.field ["x"])]⟩ ⟨0, 6⟩], [], .empty⟩

/-- Data with a field `x`. -/
def dataX (text : String) : Value :=
  .map [("x", .text text)]

/-- An update is prepared and copied. Of the two copies, one is committed after another update, so
that it is stale, and the other after an update that was prepared later and committed. An update to
data without the field fails in between, and one more update changes the page again. -/
theorem run_spec_copies :
    let actions : List PageAction := [.prepare (dataX "b"), .copy 0, .update (dataX "c"),
      .commit 0, .update (.text "z"), .prepare (dataX "d"), .commit 1, .commit 0]
    ∃ page, Page.create echoX (dataX "a") {} = .ok page ∧
      let session := (start page).run actions
      session.page = ⟨echoX, {}, ⟨["", ""], [.text "d"]⟩, dataX "d", 2⟩ ∧
      session.answers.map PageAnswer.isChange =
        [false, false, true, false, false, false, true, false] ∧
      (session.step (.update (dataX "e"))).page =
        ⟨echoX, {}, ⟨["", ""], [.text "e"]⟩, dataX "e", 3⟩ ∧
      (session.answers.filterMap PageAnswer.made?).Nodup ∧
      ∃ client shown : Client, Client.ofJson page.tree.toJson = .ok client ∧
        client.applyAll (session.answers.flatMap PageAnswer.fragments) = (shown, none) ∧
        echoX.execute (dataX "d") = .ok shown.text := by
  intro actions
  have hc : Page.create echoX (dataX "a") {} =
      .ok ⟨echoX, {}, ⟨["", ""], [.text "a"]⟩, dataX "a", 0⟩ := rfl
  have hrender : echoX.render (dataX "e") = .ok ⟨["", ""], [.text "e"]⟩ := rfl
  obtain ⟨-, hupdate, -, -, -, honce, hclient⟩ := run_spec hc actions
  obtain ⟨⟨-, hpage⟩, -⟩ := hupdate (dataX "e") _ hrender
  refine ⟨_, hc, rfl, rfl, hpage, honce, hclient fun before hb => ?_⟩
  have hm := (List.mem_inits _ _).mpr hb
  simp only [actions, List.inits, List.map_cons, List.map_nil, List.mem_cons, List.not_mem_nil,
    or_false] at hm
  rcases hm with rfl | rfl | rfl | rfl | rfl | rfl | rfl | rfl | rfl <;> rfl

end Session

end LiveTemplate
