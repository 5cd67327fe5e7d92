/-
This file collects the paths that are queued for the entries of handlers over a
run (`entryPaths`). They can be told from the paths that the code itself
queues: they follow a node of an entry, and this node was added in the same
turn. In every turn, and so in every run, each entry that was recorded is
complete and has one of them.
-/

import BytecodeFlow.Proofs.Walk.Additions
import BytecodeFlow.Proofs.Walk.CatchChains
import BytecodeFlow.Proofs.Walk.Moves

namespace BytecodeFlow

def NodeKind.isPrune : NodeKind → Bool
  | .prune _ _ => true
  | _ => false

instance (procedure : Procedure) (index : NodeIndex) : Decidable (procedure.HandlerMade index) :=
  decidable_of_iff (procedure.kind? index = some .handler ∨
    (procedure.kind? index).any NodeKind.isPrune = true ∧
      ∃ entry ∈ List.range procedure.size, procedure.kind? entry = some .handler ∧
        index ∈ procedure.successorsOf entry) <| by
    refine or_congr_right ⟨?_, ?_⟩
    · rintro ⟨prune, entry, -, handler, edge⟩
      obtain ⟨kind, found, isPrune⟩ := Option.any_eq_true _ _ |>.mp prune
      cases kind with
      | prune branch kind => exact ⟨branch, kind, entry, found, handler, edge⟩
      | _ => cases isPrune
    · rintro ⟨branch, kind, entry, prune, handler, edge⟩
      exact ⟨by rw [prune]; rfl, entry,
        List.mem_range.mpr (Procedure.lt_size_of_kind? handler), handler, edge⟩

namespace Walk

/-- The paths that a turn queues for entries of handlers: those that follow a node which is
`HandlerMade` and which the turn has added. -/
def entryPaths (before after : Walk) : List Pending :=
  after.worklist.filter fun path =>
    before.procedure.size ≤ path.previous ∧ after.procedure.HandlerMade path.previous

/-- A run has come to a walk, and these are the `entryPaths` of its turns, those of the last one
first. -/
inductive EntryPaths (routine : Routine) (limits : Limits) (start : Walk) :
    Walk → List Pending → Prop
  | start : EntryPaths routine limits start start []
  | turn {before after : Walk} {paths : List Pending} {pending : Pending}
    (earlier : EntryPaths routine limits start before paths)
    (takesUp : TakesUp routine limits before pending after none) :
    EntryPaths routine limits start after (entryPaths before after ++ paths)

variable {routine : Routine} {limits : Limits} {start base walk other before after : Walk}
  {own : List NodeIndex} {paths : List Pending} {pending : Pending}

theorem EntryPaths.turns (collected : EntryPaths routine limits start walk paths) :
    Turns routine limits start walk := by
  induction collected with
  | start => exact .refl
  | turn _ takesUp inductionHypothesis => exact inductionHypothesis.tail ⟨_, takesUp⟩

theorem Turns.entryPaths (turns : Turns routine limits start walk) :
    ∃ paths, EntryPaths routine limits start walk paths := by
  induction turns with
  | refl => exact ⟨[], .start⟩
  | tail _ turn inductionHypothesis =>
    obtain ⟨pending, takesUp⟩ := turn
    obtain ⟨paths, earlier⟩ := inductionHypothesis
    exact ⟨_, earlier.turn takesUp⟩

/-! ### Operations -/

/-- No waiting path continues the entry of a handler. -/
def ContinuesCode (walk : Walk) : Prop :=
  ∀ path ∈ walk.worklist, ∀ node, path.continuation = .append node →
    node < walk.procedure.size ∧ walk.procedure.kind? node ≠ some .handler

/-- What goes along with the moves of `Working`: it `Installs` the entries that it builds, and its
own nodes are none of theirs. The paths for entries are those that follow a new node which is not
the operation's own. -/
structure Equipping (routine : Routine) (base walk : Walk) (own : List NodeIndex)
    (paths : List Pending) : Prop where
  installs : Installs routine base walk paths
  followed : base.previous < base.procedure.size
  made : ∀ path ∈ paths, walk.procedure.HandlerMade path.previous
  queued : ∃ pushed, walk.worklist = pushed ++ base.worklist ∧
    (∀ path ∈ pushed, path.previous < walk.procedure.size) ∧
    pushed.filter (fun path => base.procedure.size ≤ path.previous ∧ path.previous ∉ own) = paths
  known : ∀ node ∈ own, node < walk.procedure.size
  code : ∀ node ∈ own, walk.procedure.kind? node ≠ some .handler
  ways : ∀ node ∈ own, base.procedure.size ≤ node → walk.procedure.IsPrune node →
    ∃ source, node ∈ walk.procedure.successorsOf source ∧
      walk.procedure.kind? source ≠ some .handler
  apart : ∀ clause ∈ routine.regions.catches, ∀ entry,
    base.entries[clause.handler.start]? = none →
    walk.entries[clause.handler.start]? = some entry →
    ∀ node ∈ own, node ∉ [entry, entry + 1, entry + 2]
  continues : walk.ContinuesCode

theorem ContinuesCode.mono (continues : walk.ContinuesCode)
    (extended : walk.procedure.Extends other.procedure)
    (worklist : ∀ path ∈ other.worklist, path ∈ walk.worklist) : other.ContinuesCode := by
  intro path member node continued
  obtain ⟨known, code⟩ := continues path (worklist path member) node continued
  refine ⟨Nat.lt_of_lt_of_le known extended.size_le, ?_⟩
  rw [extended.kind? known]
  exact code

/-- A way out of a node that is no entry stays one. -/
theorem way_mono {first second : Procedure} {node : NodeIndex} (extended : first.Extends second)
    (way : ∃ source, node ∈ first.successorsOf source ∧ first.kind? source ≠ some .handler) :
    ∃ source, node ∈ second.successorsOf source ∧ second.kind? source ≠ some .handler := by
  obtain ⟨source, edge, code⟩ := way
  refine ⟨source, (extended.successorsOf source).subset edge, ?_⟩
  rw [extended.kind? (Procedure.lt_size_of_mem_successorsOf edge)]
  exact code

namespace Equipping

/-- What has to be said of a move that builds no entry: it changes only nodes of its own and the
one that its path follows, and the nodes that become its own are new and are no entries. -/
theorem alter (equipping : Equipping routine base walk own paths) {more : List NodeIndex}
    (extended : walk.procedure.Extends other.procedure) (entries : other.entries = walk.entries)
    (worklist : other.worklist = walk.worklist)
    (handlers : ∀ node, walk.procedure.size ≤ node →
      other.procedure.kind? node ≠ some .handler)
    (kept : ∀ index < walk.procedure.size, index ∉ own → index ≠ base.previous →
      other.procedure.node? index = walk.procedure.node? index)
    (more_own : ∀ node ∈ more, node ∈ own ∨ walk.procedure.size ≤ node)
    (own_more : ∀ node ∈ own, node ∈ more)
    (new : ∀ node ∈ more, walk.procedure.size ≤ node → node < other.procedure.size ∧
      (other.procedure.IsPrune node → ∃ source, node ∈ other.procedure.successorsOf source ∧
        other.procedure.kind? source ≠ some .handler)) :
    Equipping routine base other more paths := by
  have outgrows : other.Outgrows walk := ⟨extended, fun _ _ found => by rw [entries]; exact found⟩
  refine ⟨?_, equipping.followed, ?_, ?_, ?_, ?_, ?_, ?_, ?_⟩
  · refine equipping.installs.trans (.idle outgrows entries handlers) ?_
    intro clause listed entry fresh recorded
    obtain ⟨after, known⟩ := equipping.installs.bounds listed fresh recorded
    refine .of_kept fun node member => ?_
    obtain ⟨first, last⟩ := Procedure.mem_entryNodes member
    refine kept node (Nat.lt_of_le_of_lt last known) (fun mine => ?_) (fun same => ?_)
    · exact equipping.apart clause listed entry fresh recorded node mine member
    · rw [same] at first
      exact Nat.not_lt_of_le (Nat.le_trans after first) equipping.followed
  · exact fun path member => (equipping.made path member).mono extended
  · obtain ⟨pushed, whole, within, chosen⟩ := equipping.queued
    refine ⟨pushed, worklist.trans whole, fun path member =>
      Nat.lt_of_lt_of_le (within path member) extended.size_le, ?_⟩
    rw [← chosen]
    refine List.filter_congr fun path member => ?_
    have same : path.previous ∈ more ↔ path.previous ∈ own := by
      refine ⟨fun mine => (more_own _ mine).resolve_right ?_, own_more _⟩
      exact Nat.not_le_of_lt (within path member)
    simp only [same]
  · intro node mine
    rcases more_own node mine with old | added
    · exact Nat.lt_of_lt_of_le (equipping.known node old) extended.size_le
    · exact (new node mine added).1
  · intro node mine
    rcases more_own node mine with old | added
    · rw [extended.kind? (equipping.known node old)]
      exact equipping.code node old
    · exact handlers node added
  · intro node mine after prune
    rcases more_own node mine with old | added
    · obtain ⟨branch, kind, found⟩ := prune
      rw [extended.kind? (equipping.known node old)] at found
      exact way_mono extended (equipping.ways node old after ⟨branch, kind, found⟩)
    · exact (new node mine added).2 prune
  · intro clause listed entry fresh recorded node mine inside
    rw [entries] at recorded
    rcases more_own node mine with old | added
    · exact equipping.apart clause listed entry fresh recorded node old inside
    · obtain ⟨-, known⟩ := equipping.installs.bounds listed fresh recorded
      exact Nat.not_le_of_lt known (Nat.le_trans added (Procedure.mem_entryNodes inside).2)
  · exact equipping.continues.mono extended fun path member => by rwa [worklist] at member

/-- Nodes of the operation's own may be changed. -/
theorem modify (equipping : Equipping routine base walk own paths) {index : NodeIndex}
    {change : Node → Node} (owned : index ∈ own)
    (extended : walk.procedure.Extends (walk.procedure.modifyNode index change)) :
    Equipping routine base
      { walk with procedure := walk.procedure.modifyNode index change } own paths := by
  have size : (walk.procedure.modifyNode index change).size = walk.procedure.size :=
    Procedure.size_modifyNode ..
  refine equipping.alter extended rfl rfl ?_ ?_ (fun _ mine => .inl mine) (fun _ mine => mine) ?_
  · intro node beyond handler
    exact Nat.not_lt_of_le beyond (size ▸ Procedure.lt_size_of_kind? handler)
  · intro node _ foreign _
    exact Procedure.node?_modifyNode_of_ne _ _ fun same => foreign (same ▸ owned)
  · intro node mine beyond
    exact absurd (equipping.known node mine) (Nat.not_lt_of_le beyond)

/-- A node that is no entry is added after one of the operation's own, or after the one that its
path follows. -/
theorem addNode (equipping : Equipping routine base walk own paths) {node : Node}
    {source : NodeIndex} (notEntry : node.kind ≠ .handler)
    (allowed : source ∈ own ∨ source = base.previous)
    (way : node.kind.isPrune = true → source ∈ own) :
    Equipping routine base
      { walk with procedure := (walk.procedure.addNode node).link source walk.procedure.size }
      (walk.procedure.size :: own) paths := by
  have extended : walk.procedure.Extends
      ((walk.procedure.addNode node).link source walk.procedure.size) :=
    (Procedure.Extends.addNode _ _).trans (.link _ _ _)
  have size : ((walk.procedure.addNode node).link source walk.procedure.size).size =
      walk.procedure.size + 1 := by
    rw [Procedure.size_link, Procedure.size_addNode]
  have kind : ((walk.procedure.addNode node).link source walk.procedure.size).kind?
      walk.procedure.size = some node.kind := by
    rw [Procedure.kind?_link, Procedure.kind?_addNode_self]
  have only : ∀ index, walk.procedure.size ≤ index →
      index < ((walk.procedure.addNode node).link source walk.procedure.size).size →
      index = walk.procedure.size := by
    intro index beyond within
    rw [size] at within
    exact Nat.le_antisymm (Nat.le_of_lt_succ within) beyond
  refine equipping.alter extended rfl rfl ?_ ?_ ?_ (fun _ mine => List.mem_cons_of_mem _ mine) ?_
  · intro index beyond handler
    rw [only index beyond (Procedure.lt_size_of_kind? handler), kind] at handler
    exact notEntry (Option.some.inj handler)
  · intro index known foreign unfollowed
    rw [Procedure.node?_link_of_ne, Procedure.node?_addNode_of_ne _ _ (Nat.ne_of_lt known)]
    rintro rfl
    exact allowed.elim foreign unfollowed
  · intro index mine
    exact (List.mem_cons.mp mine).elim (fun same => .inr (Nat.le_of_eq same.symm)) .inl
  · intro index mine beyond
    have same : index = walk.procedure.size := by
      rcases List.mem_cons.mp mine with same | old
      · exact same
      · exact absurd (equipping.known index old) (Nat.not_lt_of_le beyond)
    subst same
    refine ⟨by rw [size]; exact Nat.lt_succ_self _, ?_⟩
    rintro ⟨branch, branchKind, prune⟩
    rw [kind] at prune
    have owned := way (by rw [Option.some.inj prune]; rfl)
    have known := equipping.known source owned
    refine ⟨source, ?_, ?_⟩
    · by_cases listed : walk.procedure.size ∈ (walk.procedure.addNode node).successorsOf source
      · rw [Procedure.successorsOf_link_of_mem listed]
        exact listed
      · rw [Procedure.successorsOf_link_self (by
          rw [Procedure.size_addNode]
          exact Nat.lt_succ_of_lt known) listed]
        exact List.mem_append_right _ List.mem_cons_self
    · rw [extended.kind? known]
      exact equipping.code source owned

/-- The handler of an offset gets an entry. -/
theorem enter (apart : routine.regions.StartsApart)
    (equipping : Equipping routine base walk own paths) (target : HandlerTarget) :
    ∃ more, Equipping routine base (walk.handlerEntry routine target).1 own (more ++ paths) := by
  obtain ⟨more, worklist, built⟩ := Builds.handlerEntry apart walk target
  have equipped := @Equipped.handlerEntry routine walk target
  have extended := equipped.outgrows.extended
  have grown : base.procedure.size ≤ walk.procedure.size :=
    equipping.installs.outgrows.extended.size_le
  refine ⟨more, equipping.installs.trans_kept built fun index _ known => equipped.kept index known,
    equipping.followed, ?_, ?_, ?_, ?_, ?_, ?_, ?_⟩
  · intro path member
    rcases List.mem_append.mp member with new | old
    · obtain ⟨-, after, known⟩ := built.leads path new
      exact equipped.made _ after known
    · exact (equipping.made path old).mono extended
  · obtain ⟨pushed, whole, within, chosen⟩ := equipping.queued
    refine ⟨more ++ pushed, by rw [worklist, whole, List.append_assoc], ?_, ?_⟩
    · intro path member
      rcases List.mem_append.mp member with new | old
      · exact (built.leads path new).2.2
      · exact Nat.lt_of_lt_of_le (within path old) extended.size_le
    · rw [List.filter_append, chosen]
      refine congrArg (· ++ paths) (List.filter_eq_self.mpr fun path member => ?_)
      obtain ⟨-, after, -⟩ := built.leads path member
      refine decide_eq_true ⟨Nat.le_trans grown after, fun mine => ?_⟩
      exact Nat.not_lt_of_le after (equipping.known _ mine)
  · exact fun node mine => Nat.lt_of_lt_of_le (equipping.known node mine) extended.size_le
  · intro node mine
    rw [extended.kind? (equipping.known node mine)]
    exact equipping.code node mine
  · rintro node mine after ⟨branch, kind, prune⟩
    rw [extended.kind? (equipping.known node mine)] at prune
    exact way_mono extended (equipping.ways node mine after ⟨branch, kind, prune⟩)
  · intro clause listed entry fresh recorded node mine inside
    cases before : walk.entries[clause.handler.start]? with
    | none =>
      obtain ⟨after, -⟩ := built.bounds listed before recorded
      exact Nat.not_lt_of_le (Nat.le_trans after (Procedure.mem_entryNodes inside).1)
        (equipping.known node mine)
    | some found =>
      cases (built.outgrows.entriesKept _ _ before).symm.trans recorded
      exact equipping.apart clause listed entry fresh before node mine inside
  · intro path member node continued
    rw [worklist] at member
    rcases List.mem_append.mp member with new | old
    · cases (built.leads path new).1 <;> cases continued
    · obtain ⟨known, code⟩ := equipping.continues path old node continued
      refine ⟨Nat.lt_of_lt_of_le known extended.size_le, ?_⟩
      rw [extended.kind? known]
      exact code

/-- The code goes on after a node of the operation's own, or after the one that its path
follows. -/
theorem queue (equipping : Equipping routine base walk own paths)
    (follows : pending.previous ∈ own ∨ pending.previous = base.previous)
    (continues : pending.continuation = .newBlock ∨
      pending.continuation = .append pending.previous ∧ pending.previous ∈ own) :
    Equipping routine base (walk.queue pending) own paths := by
  have outgrows : (walk.queue pending).Outgrows walk := ⟨.refl _, fun _ _ found => found⟩
  have grown : base.procedure.size ≤ walk.procedure.size :=
    equipping.installs.outgrows.extended.size_le
  refine ⟨equipping.installs.trans_kept (.idle_of_size outgrows rfl rfl) fun _ _ _ => rfl,
    equipping.followed, equipping.made, ?_, equipping.known, equipping.code, equipping.ways,
    equipping.apart, ?_⟩
  · obtain ⟨pushed, whole, within, chosen⟩ := equipping.queued
    refine ⟨pending :: pushed, congrArg (pending :: ·) whole, ?_, ?_⟩
    · intro path member
      rcases List.mem_cons.mp member with rfl | old
      · rcases follows with mine | followed
        · exact equipping.known _ mine
        · rw [followed]
          exact Nat.lt_of_lt_of_le equipping.followed grown
      · exact within path old
    · rw [List.filter_cons_of_neg, chosen]
      rw [decide_eq_true_iff]
      rintro ⟨after, foreign⟩
      rcases follows with mine | followed
      · exact foreign mine
      · rw [followed] at after
        exact Nat.not_lt_of_le after equipping.followed
  · intro path member node continued
    rcases List.mem_cons.mp member with rfl | old
    · rcases continues with fresh | ⟨appends, mine⟩
      · cases fresh.symm.trans continued
      · cases appends.symm.trans continued
        exact ⟨equipping.known _ mine, equipping.code _ mine⟩
    · exact equipping.continues path old node continued

end Equipping

/-- Every move of `Working` is `Equipping`: it completes the entries that it builds. -/
theorem Working.equipping (apart : routine.regions.StartsApart)
    (working : Working routine base own walk)
    (begun : Equipping routine base base base.current.toList []) :
    ∃ paths, Equipping routine base walk own paths := by
  induction working with
  | start => exact ⟨[], begun⟩
  | adjust _ _ _ _ _ _ inductionHypothesis | record _ _ inductionHypothesis =>
    obtain ⟨paths, equipping⟩ := inductionHypothesis
    refine ⟨paths, equipping.alter (.refl _) rfl rfl ?_ (fun _ _ _ _ => rfl)
      (fun _ mine => .inl mine) (fun _ mine => mine) ?_⟩
    · intro node beyond handler
      exact Nat.not_lt_of_le beyond (Procedure.lt_size_of_kind? handler)
    · intro node mine beyond
      exact absurd (equipping.known node mine) (Nat.not_lt_of_le beyond)
  | enter _ target _ inductionHypothesis =>
    obtain ⟨paths, equipping⟩ := inductionHypothesis
    obtain ⟨more, entered⟩ := equipping.enter apart target
    exact ⟨_, entered⟩
  | place working closed kind plain inductionHypothesis =>
    obtain ⟨paths, equipping⟩ := inductionHypothesis
    obtain ⟨_, _, _, _, _, _, _, _, _, same⟩ := working.rest
    refine ⟨paths, equipping.addNode ?_ (.inr (by rw [same])) ?_⟩
    · rcases plain with rfl | rfl <;> exact NodeKind.noConfusion
    · rcases plain with rfl | rfl <;> exact fun impossible => by cases impossible
  | fork _ owned _ _ _ inductionHypothesis =>
    obtain ⟨paths, equipping⟩ := inductionHypothesis
    exact ⟨paths, equipping.addNode NodeKind.noConfusion (.inl owned) fun _ => owned⟩
  | guard _ owned _ inductionHypothesis =>
    obtain ⟨paths, equipping⟩ := inductionHypothesis
    exact ⟨paths, equipping.modify owned (.setException _ _ _)⟩
  | write _ owned _ inductionHypothesis =>
    obtain ⟨paths, equipping⟩ := inductionHypothesis
    exact ⟨paths, equipping.modify owned (.append _ _ _)⟩
  | lead _ owned _ inductionHypothesis =>
    obtain ⟨paths, equipping⟩ := inductionHypothesis
    exact ⟨paths, equipping.modify owned (.link _ _ _)⟩
  | queue working follows continues _ inductionHypothesis =>
    obtain ⟨paths, equipping⟩ := inductionHypothesis
    obtain ⟨_, _, _, _, _, _, _, _, _, same⟩ := working.rest
    refine ⟨paths, equipping.queue (follows.imp_right fun followed => ?_) continues⟩
    rw [followed, same]

/-! ### Turns -/

/-- The operation's own nodes are not `HandlerMade`. -/
theorem Equipping.not_handlerMade (equipping : Equipping routine base walk own paths)
    (shaped : walk.procedure.Shaped) {node : NodeIndex} (mine : node ∈ own)
    (new : base.procedure.size ≤ node) : ¬ walk.procedure.HandlerMade node := by
  rintro (handler | ⟨branch, kind, entry, prune, handler, edge⟩)
  · exact equipping.code node mine handler
  · obtain ⟨source, way, code⟩ := equipping.ways node mine new ⟨branch, kind, prune⟩
    rw [shaped.oneSource node ⟨branch, kind, prune⟩ entry source edge way] at handler
    exact code handler

/-- The paths for entries are the `entryPaths`. -/
theorem Equipping.entryPaths_eq (equipping : Equipping routine base walk own paths)
    (shaped : walk.procedure.Shaped) (procedure : base.procedure = before.procedure)
    (older : ∀ path ∈ base.worklist, path.previous < before.procedure.size) :
    entryPaths before walk = paths := by
  obtain ⟨pushed, whole, -, chosen⟩ := equipping.queued
  unfold entryPaths
  rw [whole, List.filter_append, List.filter_eq_nil_iff.mpr fun path member counted =>
    Nat.not_lt_of_le (of_decide_eq_true counted).1 (older path member), List.append_nil, ← chosen]
  refine List.filter_congr fun path member => ?_
  rw [← procedure]
  refine decide_eq_decide.mpr (and_congr_right fun new => ⟨fun made mine => ?_, fun foreign => ?_⟩)
  · exact equipping.not_handlerMade shaped mine new made
  · refine equipping.made path ?_
    rw [← chosen]
    exact List.mem_filter.mpr ⟨member, decide_eq_true ⟨new, foreign⟩⟩

/-- A turn `Installs` the entries that it builds, and queues one path for each. -/
theorem TakesUp.installs (apart : routine.regions.StartsApart) (linear : before.Linear [])
    (continues : before.ContinuesCode)
    (takesUp : TakesUp routine limits before pending after none) :
    Installs routine before after (entryPaths before after) ∧ after.ContinuesCode := by
  have shaped := (takesUp.linear linear).shaped
  obtain ⟨rest, waiting, worked⟩ := takesUp.worked
  have waits : pending ∈ before.worklist := by
    rw [waiting]
    exact List.mem_cons_self
  have known : ∀ path ∈ before.worklist, path.previous < before.procedure.size :=
    fun path member => (linear.loose _ (List.mem_map_of_mem member)).1
  have older : ∀ path ∈ rest, path.previous < before.procedure.size := fun path member =>
    known path (by rw [waiting]; exact List.mem_cons_of_mem _ member)
  have waiting_rest : ∀ path ∈ rest, path ∈ before.worklist := fun path member => by
    rw [waiting]
    exact List.mem_cons_of_mem _ member
  have nothing : ∀ walk : Walk, (∀ path ∈ walk.worklist,
      path.previous < before.procedure.size) → entryPaths before walk = [] := by
    intro walk all
    refine List.filter_eq_nil_iff.mpr fun path member counted => ?_
    exact Nat.not_lt_of_le (of_decide_eq_true counted).1 (all path member)
  cases worked with
  | joined node shared =>
    have extended : before.procedure.Extends
        ((before.arrive pending rest).linkPrevious node).procedure := .link _ _ _
    rw [nothing _ older]
    exact ⟨.idle_of_size ⟨extended, fun _ _ found => found⟩ rfl (Procedure.size_link ..),
      continues.mono extended waiting_rest⟩
  | halted =>
    rw [nothing _ older]
    exact ⟨.idle_of_size ⟨.refl _, fun _ _ found => found⟩ rfl rfl,
      continues.mono (.refl _) waiting_rest⟩
  | deferred location stack next fresh closed =>
    have all : ∀ path ∈ (defer { before.arrive pending rest with location, stack } next).worklist,
        path.previous < before.procedure.size := by
      intro path member
      rcases List.mem_cons.mp member with rfl | old
      · exact known pending waits
      · exact older path old
    rw [nothing _ all]
    refine ⟨.idle_of_size ⟨.refl _, fun _ _ found => found⟩ rfl rfl, ?_⟩
    intro path member node continued
    rcases List.mem_cons.mp member with rfl | old
    · cases continued
    · exact continues path (waiting_rest path old) node continued
  | performed location stack own after fresh working =>
    have code : ∀ node ∈ (before.arrive pending rest).current.toList,
        node < before.procedure.size ∧ before.procedure.kind? node ≠ some .handler := by
      intro node member
      exact continues pending waits node (continuation_of_arrive (Option.mem_toList.mp member))
    have begun : Equipping routine { before.arrive pending rest with location, stack }
        { before.arrive pending rest with location, stack }
        (before.arrive pending rest).current.toList [] := by
      refine ⟨.refl _, known pending waits, fun _ member => absurd member List.not_mem_nil,
        ⟨[], rfl, fun _ member => absurd member List.not_mem_nil, rfl⟩,
        fun node mine => (code node mine).1, fun node mine => (code node mine).2, ?_, ?_,
        continues.mono (.refl _) waiting_rest⟩
      · intro node mine new
        exact absurd (code node mine).1 (Nat.not_lt_of_le new)
      · intro clause _ entry unrecorded recorded
        cases unrecorded.symm.trans recorded
    obtain ⟨paths, equipping⟩ := working.equipping apart begun
    have collected : entryPaths before after = paths := equipping.entryPaths_eq shaped rfl older
    rw [collected]
    exact ⟨equipping.installs.of_base rfl rfl, equipping.continues⟩

/-! ### Runs -/

/-- Turns leave the entries alone that were built before, but for the ways into their handlers. -/
theorem TakesUp.entryKept (linear : before.Linear [])
    (takesUp : TakesUp routine limits before pending after none) {clause : CatchClause}
    {rest : List CatchClause} {entry : NodeIndex} {unwrapped : Ident}
    (entered : CatchEntered routine before clause rest entry unwrapped) :
    before.procedure.EntryKept after.procedure entry := by
  obtain ⟨onward, guard, -, -, nodes⟩ := entered
  refine ⟨takesUp.kept_of_closed linear ?_, ?_, takesUp.kept_of_closed linear ?_⟩
  · rw [nodes.waysOut]
    exact List.cons_ne_nil _ _
  · exact takesUp.adds.exceptionsKept _ (Nat.lt_of_succ_lt nodes.known)
  · rw [nodes.missed]
    exact List.cons_ne_nil _ _

/-- A run `Installs` every entry that was recorded, with one path for it. -/
theorem EntryPaths.installs (apart : routine.regions.StartsApart)
    (linear : ∀ {before after : Walk} {pending : Pending}, Turns routine limits start before →
      TakesUp routine limits before pending after none → start.Linear [])
    (continues : start.ContinuesCode) (collected : EntryPaths routine limits start walk paths) :
    Installs routine start walk paths ∧ walk.ContinuesCode := by
  induction collected with
  | start => exact ⟨.refl start, continues⟩
  | @turn before after paths pending earlier takesUp inductionHypothesis =>
    obtain ⟨installs, continues⟩ := inductionHypothesis
    have reached := Turns.linear earlier.turns (linear earlier.turns takesUp)
    obtain ⟨built, further⟩ := takesUp.installs apart reached continues
    refine ⟨installs.trans built fun clause listed entry fresh recorded => ?_, further⟩
    obtain ⟨front, rest, whole⟩ := List.append_of_mem listed
    obtain ⟨-, _, _, -, entered⟩ :=
      installs.catches clause rest ⟨front, whole.symm⟩ entry fresh recorded
    exact takesUp.entryKept reached entered

end Walk

end BytecodeFlow
