import Docblock.Proofs.Operations
import Mathlib.Data.List.Basic

/-!
# What decides a link

The link of an item is its name, until another link is given and again when the link is reset. The
name of a class or of a member is part of what it is, so its link follows its name whatever has been
done. The project is named by an operation of its own, and that leaves the link as it is: a project
that is named after its link has been decided keeps a link that need not be its name. Blocks always
decide the link behind the name, so a document of sources shows nothing of this.

## Main definitions

* `LinkStep`: what is done to the name of an item, or to its link
* `Called`: a name with a link, and what a step makes of them
* `linkSteps`: the steps of a run of operations for one item
* `linkWanted`: the link given last, or the name where another step came later
* `FollowsName`: an item has the link that is wanted

## Main results

* `called_apply`, `called_run`: what one operation, and a run of them, makes of a name and a link
* `link_eq_linkWanted_iff`: when steps lead to the link that is wanted
* `followsName_iff`: links follow names, unless the project is named at the end
* `not_followsName_nameProject`: a new project that is named has no link
-/

namespace Docblock

/-- What is done to the name of an item, or to its link. -/
inductive LinkStep where
  /-- The item gets a name, as the project does. -/
  | named (name : Text)
  | given (link : Text)
  /-- The name becomes the link. -/
  | reset
  deriving DecidableEq

/-- A name with a link. -/
structure Called where
  name : Text
  link : Text
  deriving DecidableEq

namespace Called

/-- What a step makes of a name and a link. -/
def after (x : Called) : LinkStep → Called
  | .named name => { x with name := name }
  | .given link => { x with link := link }
  | .reset => { x with link := x.name }

/-- What is called by its name alone. -/
def byName (name : Text) : Called := ⟨name, name⟩

end Called

/-- The link that is wanted behind some steps: the last one that was given if nothing came later,
and the name otherwise. -/
def linkWanted (steps : List LinkStep) (name : Text) : Text :=
  match steps.getLast? with
  | some (.given link) => link
  | some (.named _) => name
  | some .reset => name
  | none => name

/-- **Steps lead to the link that is wanted**, unless the last one gives a name that is not the link
by then. -/
theorem link_eq_linkWanted_iff (steps : List LinkStep) (name : Text) :
    (steps.foldl Called.after (.byName name)).link =
        linkWanted steps (steps.foldl Called.after (.byName name)).name ↔
      ∀ earlier name', steps = earlier ++ [.named name'] →
        (earlier.foldl Called.after (.byName name)).link = name' := by
  rcases List.eq_nil_or_concat' steps with rfl | ⟨earlier, step, rfl⟩
  · refine iff_of_true rfl fun earlier name' empty => ?_
    exact absurd empty.symm (List.concat_ne_nil _ _)
  · -- The last step alone says what is wanted, and only a name leaves the link as it was.
    rw [List.foldl_concat, linkWanted, List.getLast?_concat]
    have last {earlier' : List LinkStep} {name' : Text}
        (same : earlier ++ [step] = earlier' ++ [.named name']) :
        earlier = earlier' ∧ step = .named name' := by
      obtain ⟨rfl, lasts⟩ := List.append_inj' same rfl
      exact ⟨rfl, List.singleton_inj.1 lasts⟩
    cases step with
    | given link => exact iff_of_true rfl fun _ _ same => nomatch (last same).2
    | reset => exact iff_of_true rfl fun _ _ same => nomatch (last same).2
    | named name' =>
      refine ⟨?_, fun agree => agree earlier name' rfl⟩
      rintro agree earlier' name'' same
      obtain ⟨rfl, ⟨⟩⟩ := last same
      exact agree

/-! ## The steps of an operation -/

/-- What a change does to a link. -/
def Change.linkSteps : Change → List LinkStep
  | add _ => []
  | setLink link => [.given link]
  | resetLink => [.reset]

/-- What a header says about the name of its item, if that is not part of the item. -/
def Header.namings : Header → List LinkStep
  | project name => [.named name]
  | classNamed _ => []
  | member _ _ _ => []

/-- What a header does to the link of its item. -/
def LinkMark.linkStep : LinkMark → LinkStep
  | given link => .given link
  | absent => .reset
  | faulty _ => .reset

/-- What a block does to the name and the link of a subject. -/
def Block.linkSteps (s : Subject) : Block → List LinkStep
  | broken _ => []
  | entry e => if s = e.header.subject then e.header.namings ++ [e.link.linkStep] else []

/-- What an operation does to the name and the link of a subject, in order. -/
def Operation.linkSteps (s : Subject) : Operation → List LinkStep
  | nameProject name => if s = .project then [.named name] else []
  | mention _ => []
  | change t c => if s = t then c.linkSteps else []
  | recordSource source => (Block.ofSource source).flatMap (Block.linkSteps s)

namespace Document

variable {d : Document} {s t : Subject} {i : Item}

/-- What a subject is called in a document. -/
def called (d : Document) (s : Subject) : Called := ⟨d.name s, (d.known s).link⟩

theorem called_of_item? (found : d.item? s = some i) : d.called s = ⟨i.name, i.notes.link⟩ := by
  obtain ⟨n, isKnown, rfl⟩ := Option.map_eq_some_iff.1 found
  rw [called, known, isKnown, Option.getD_some]

theorem called_edit (d : Document) (s t : Subject) (f : Notes → Notes) :
    (d.edit t f).called s = if s = t then ⟨d.name s, (f (d.known s)).link⟩ else d.called s := by
  rw [called, edit_name, known_edit]
  split
  · rfl
  · rfl

/-- An edit that keeps links keeps what subjects are called. -/
theorem called_edit_of_keeps {f : Notes → Notes} (keeps : ∀ n, (f n).link = n.link) (d : Document)
    (s t : Subject) : (d.edit t f).called s = d.called s := by
  rw [called_edit, keeps]
  exact ite_self _

theorem called_setLink (d : Document) (s t : Subject) (link : Text) :
    (d.setLink t link).called s = if s = t then ⟨d.name s, link⟩ else d.called s :=
  called_edit d s t _

theorem called_change (d : Document) (s t : Subject) (c : Change) :
    (d.change t c).called s =
      (if s = t then c.linkSteps else []).foldl Called.after (d.called s) := by
  cases c with
  | add a =>
    have keeps : (d.addAttribute t a).called s = d.called s :=
      called_edit_of_keeps (fun n => Notes.add_link n a) d s t
    rw [Change.linkSteps, ite_self]
    exact keeps
  | setLink link =>
    refine (called_setLink d s t link).trans ?_
    split
    · rfl
    · rfl
  | resetLink =>
    refine (called_setLink d s t (d.name t)).trans ?_
    split
    · rename_i same
      subst same
      rfl
    · rfl

/-- A name for the project leaves its link as it is. -/
theorem called_nameProject (d : Document) (s : Subject) (name : Text) :
    (d.nameProject name).called s =
      (if s = .project then [LinkStep.named name] else []).foldl Called.after (d.called s) := by
  cases s with
  | project => rfl
  | classNamed name => rfl
  | member kind owner name => rfl

theorem called_rename (d : Document) (header : Header) (s : Subject) :
    (d.rename header).called s =
      (if s = header.subject then header.namings else []).foldl Called.after (d.called s) := by
  cases header with
  | project name => exact called_nameProject d s name
  | classNamed name => rw [Header.namings, ite_self]; rfl
  | member kind owner name => rw [Header.namings, ite_self]; rfl

/-- What an entry makes of a link is told by its header. -/
theorem link_revise (e : Entry) (n : Notes) : (e.revise n).link = e.link.linkOf e.header.name := by
  rw [Entry.revise, Entry.declare]
  split
  · split
    · rfl
    · rfl
  · rfl

theorem called_record (d : Document) (s : Subject) (b : Block) :
    (d.record b).called s = (b.linkSteps s).foldl Called.after (d.called s) := by
  cases b with
  | broken fault => rfl
  | entry e =>
    rw [record, recordEntry_eq_edit, called_edit, link_revise, Block.linkSteps]
    have renamed := called_rename d e.header s
    split
    · -- An entry gives the name first, so its link is decided behind the new name.
      rename_i same
      rw [if_pos same] at renamed
      rw [List.foldl_append, ← renamed]
      subst same
      rw [called, rename_name]
      cases e.link <;> rfl
    · rename_i other
      rw [if_neg other] at renamed
      exact renamed

/-- **What an operation makes of a name and a link** is told by its steps. -/
theorem called_apply (d : Document) (s : Subject) (op : Operation) :
    (d.apply op).called s = (op.linkSteps s).foldl Called.after (d.called s) := by
  cases op with
  | nameProject name => exact called_nameProject d s name
  | mention t => exact called_edit_of_keeps (fun _ => rfl) d s t
  | change t c => exact called_change d s t c
  | recordSource source =>
    rw [Operation.linkSteps, List.foldl_flatMap]
    exact (List.foldl_hom (called · s) fun d b => (called_record d s b).symm).symm

/-- The steps of a run of operations for a subject, in order. -/
def linkSteps (operations : List Operation) (s : Subject) : List LinkStep :=
  operations.flatMap (Operation.linkSteps s)

/-- **What a run of operations makes of a name and a link.** At first everything is called by its
name. -/
theorem called_run (operations : List Operation) (s : Subject) :
    (run operations).called s =
      (linkSteps operations s).foldl Called.after (.byName (empty.name s)) := by
  have start : empty.called s = .byName (empty.name s) := by cases s <;> rfl
  rw [← start, linkSteps, List.foldl_flatMap]
  exact (List.foldl_hom (called · s) fun d op => (called_apply d s op).symm).symm

/-! ## Links that follow names -/

/-- A subject has the link that is wanted behind a run of operations. -/
def FollowsName (operations : List Operation) (s : Subject) : Prop :=
  ∀ i, (run operations).item? s = some i →
    i.notes.link = linkWanted (linkSteps operations s) i.name

end Document

/-- Steps that do not end with a name. -/
def Settled (steps : List LinkStep) : Prop := ∀ name, steps.getLast? ≠ some (.named name)

theorem settled_nil : Settled [] := fun _ => nofun

theorem Settled.append {first second : List LinkStep} (settled : Settled first)
    (others : Settled second) : Settled (first ++ second) := by
  intro name last
  rw [List.getLast?_append] at last
  cases ends : second.getLast? with
  | none => exact settled name (by simpa [ends] using last)
  | some step => exact others name (by simpa [ends] using last)

theorem Settled.flatMap {α : Type} {f : α → List LinkStep} {l : List α}
    (each : ∀ a ∈ l, Settled (f a)) : Settled (l.flatMap f) := by
  induction l with
  | nil => exact settled_nil
  | cons a l ih =>
    obtain ⟨first, others⟩ := List.forall_mem_cons.1 each
    exact first.append (ih others)

theorem Change.settled_linkSteps (c : Change) : Settled c.linkSteps := by
  cases c with
  | add a => exact settled_nil
  | setLink link => exact fun _ => nofun
  | resetLink => exact fun _ => nofun

/-- **A block decides the link behind the name.** -/
theorem Block.settled_linkSteps (s : Subject) (b : Block) : Settled (b.linkSteps s) := by
  cases b with
  | broken fault => exact settled_nil
  | entry e =>
    rw [Block.linkSteps]
    split
    · intro name last
      rw [List.getLast?_concat] at last
      cases mark : e.link with
      | given link => exact nomatch mark ▸ last
      | absent => exact nomatch mark ▸ last
      | faulty fault => exact nomatch mark ▸ last
    · exact settled_nil

namespace Operation

variable {s : Subject}

theorem settled_recordSource (s : Subject) (source : Text) :
    Settled ((recordSource source).linkSteps s) :=
  .flatMap fun b _ => b.settled_linkSteps s

/-- Only the project is named by an operation. -/
theorem settled_of_ne_project (notProject : s ≠ .project) (op : Operation) :
    Settled (op.linkSteps s) := by
  cases op with
  | nameProject name =>
    rw [Operation.linkSteps, if_neg notProject]
    exact settled_nil
  | mention t => exact settled_nil
  | change t c =>
    rw [Operation.linkSteps]
    split
    · exact c.settled_linkSteps
    · exact settled_nil
  | recordSource source => exact settled_recordSource s source

end Operation

namespace Document

variable {operations : List Operation} {s : Subject}

theorem followsName_of_steps
    (agree : ∀ earlier name, linkSteps operations s = earlier ++ [.named name] →
      (earlier.foldl Called.after (.byName (empty.name s))).link = name) :
    FollowsName operations s := by
  intro i found
  have wanted := (link_eq_linkWanted_iff (linkSteps operations s) (empty.name s)).2 agree
  rwa [← called_run, called_of_item? found] at wanted

theorem followsName_of_settled (settled : Settled (linkSteps operations s)) :
    FollowsName operations s := by
  refine followsName_of_steps fun earlier name ends => ?_
  exact absurd (ends ▸ List.getLast?_concat) (settled name)

/-- **Links follow names, unless the project is named at the end.** After any run of operations each
class and each member has the link that was given last, or its name. So has the project exactly if
the last step for it does not name it, or names it as its link says already; and so it has if all
operations record sources. In any case the name and the link of an item are what the steps for it
make of its first name. -/
theorem followsName_iff (operations : List Operation) :
    (∀ s, s ≠ .project → FollowsName operations s) ∧
      (FollowsName operations .project ↔
        ∀ earlier name, linkSteps operations .project = earlier ++ [.named name] →
          (earlier.foldl Called.after (.byName [])).link = name) ∧
      ((∀ op ∈ operations, ∃ source, op = .recordSource source) →
        FollowsName operations .project) ∧
      ∀ s i, (run operations).item? s = some i →
        (linkSteps operations s).foldl Called.after (.byName (empty.name s)) =
          ⟨i.name, i.notes.link⟩ := by
  refine ⟨?_, ⟨?_, followsName_of_steps⟩, ?_, ?_⟩
  · intro s notProject
    exact followsName_of_settled (.flatMap fun op _ => op.settled_of_ne_project notProject)
  · intro follows
    have found : (run operations).item? .project = some (run operations).projectItem := rfl
    have wanted := follows _ found
    have called := called_of_item? found
    rw [called_run] at called
    refine (link_eq_linkWanted_iff (linkSteps operations .project) []).1 ?_
    rw [show empty.name .project = [] from rfl] at called
    rw [called]
    exact wanted
  · intro sources
    refine followsName_of_settled (.flatMap fun op inside => ?_)
    obtain ⟨source, rfl⟩ := sources op inside
    exact Operation.settled_recordSource .project source
  · intro s i found
    rw [← called_run, called_of_item? found]

/-- A new project that is named has no link. -/
theorem not_followsName_nameProject :
    ¬ FollowsName [.nameProject "demo".toList] .project := by
  intro follows
  have wanted : [] = "demo".toList := follows _ rfl
  exact absurd wanted (by decide)

end Document

end Docblock
