import AnnotatedYaml.Proofs.Text.Scans
import AnnotatedYaml.Tree.Build
import AnnotatedYaml.Proofs.Hoare

/-! The two loops of the builder that run on fuel settle within the fuel the library gives them. -/

namespace AnnotatedYaml

open Syntax

section

open Text

variable (source : SourceText)

theorem delimiterAt.go_succ (p : Position) (opening : Char) :
    ∀ F column, source.contentLength p.line - column + 1 ≤ F →
      delimiterAt.go source p opening column (F + 1) =
        delimiterAt.go source p opening column F := by
  intro F
  induction F with
  | zero => intro column enough; omega
  | succ F ih =>
    intro column enough
    conv => lhs; rw [delimiterAt.go]
    conv => rhs; rw [delimiterAt.go]
    split
    · rfl
    · rename_i within
      split
      · rfl
      · dsimp only
        split
        · rfl
        · split
          · exact ih _ (by omega)
          · split
            · rfl
            · exact ih _ (by omega)

theorem delimiterAt.go_settles (p : Position) (opening : Char) (column : Nat) :
    FuelSettles (delimiterAt.go source p opening column)
      (source.contentLength p.line - column + 1) :=
  FuelSettles.of_succ fun F enough => go_succ source p opening F column enough

theorem scanFrom_succ (chars : Array Char) :
    ∀ F i at0 st, chars.size - i + 1 ≤ F →
      scanFrom chars i at0 st (F + 1) = scanFrom chars i at0 st F := by
  intro F
  induction F with
  | zero => intro i at0 st enough; omega
  | succ F ih =>
    intro i at0 st enough
    conv => lhs; rw [scanFrom]
    conv => rhs; rw [scanFrom]
    split
    · rfl
    · rename_i c found
      have inside : i < chars.size := (Array.getElem?_eq_some_iff.mp found).1
      -- every branch reads on from the next character or the one after it
      simp (disch := omega) only [ih]

theorem scanFrom_settles (chars : Array Char) (i : Nat) (at0 : Position) (st : BracketScan) :
    FuelSettles (scanFrom chars i at0 st) (chars.size - i + 1) :=
  FuelSettles.of_succ fun F enough => scanFrom_succ chars F i at0 st enough

theorem quotedSpan.scan_succ (quote : Char) (bytes : ByteArray) (q : UInt8) :
    ∀ F i, bytes.size - i + 1 ≤ F →
      quotedSpan.scan quote bytes q (F + 1) i = quotedSpan.scan quote bytes q F i := by
  intro F
  induction F with
  | zero => intro i enough; omega
  | succ F ih =>
    intro i enough
    conv => lhs; rw [quotedSpan.scan]
    conv => rhs; rw [quotedSpan.scan]
    split
    · rfl
    · rename_i inside
      simp (disch := omega) only [ih]

theorem quotedSpan.scan_settles (quote : Char) (bytes : ByteArray) (q : UInt8) (i : Nat) :
    FuelSettles (fun F => quotedSpan.scan quote bytes q F i) (bytes.size - i + 1) :=
  FuelSettles.of_succ fun F enough => scan_succ quote bytes q F i enough

end

namespace Builder

/-- What a builder step may do to the builder: read on from the same events. -/
structure Moves (b b' : Builder) : Prop where
  events : b'.events = b.events
  pos : b.pos ≤ b'.pos

def left (b : Builder) : Nat := b.events.size - b.pos

theorem Moves.refl (b : Builder) : b.Moves b := ⟨rfl, Nat.le_refl _⟩

variable {b b' b'' : Builder}

theorem Moves.trans (first : b.Moves b') (second : b'.Moves b'') : b.Moves b'' :=
  ⟨second.events.trans first.events, Nat.le_trans first.pos second.pos⟩

theorem Moves.left_lt (moved : b.Moves b') (strict : b.pos < b'.pos)
    (inside : b.pos < b.events.size) : b'.left < b.left := by
  unfold left
  rw [moved.events]
  omega

theorem left_le_size (b : Builder) : b.left ≤ b.events.size := by
  unfold left
  omega

theorem left_of_next (events : b'.events = b.events) (pos : b'.pos = b.pos + 1)
    (inside : b.pos < b.events.size) : b'.left + 1 = b.left := by
  unfold left
  rw [events, pos]
  omega

theorem pos_lt_of_getElem? {e : Event × Span} (found : b.events[b.pos]? = some e) :
    b.pos < b.events.size :=
  (Array.getElem?_eq_some_iff.mp found).1

end Builder

namespace Build

/-- Every successful run of `x` from `b` moves on from `b`. -/
def MovesFrom {α : Type} (b : Builder) (x : Build α) : Prop :=
  Hoare (· = b) x (fun _ b' => b.Moves b') fun _ => True

/-- Building a node moves on, and past one event at least when it builds one. -/
def BuildsFrom (b : Builder) (x : Build (Option Nat)) : Prop :=
  Hoare (· = b) x (fun r b' => b.Moves b' ∧ (r.isSome → b.pos < b'.pos)) fun _ => True

section

variable {α β : Type} {b : Builder}

/-! How a run of each monadic step moves the builder. -/

theorem MovesFrom.pure (a : α) : MovesFrom b (Pure.pure a : Build α) :=
  Hoare.pure a fun _ same => same ▸ Builder.Moves.refl _

theorem MovesFrom.bind {x : Build α} {f : α → Build β} (first : MovesFrom b x)
    (rest : ∀ a b', x.run b = .ok (a, b') → MovesFrom b' (f a)) : MovesFrom b (x >>= f) :=
  Hoare.bind_run first fun a b' ran moved => Hoare.mono (rest a b' ran) (fun _ same => same)
    (fun _ _ moved' => moved.trans moved') fun _ failed => failed

theorem MovesFrom.get {f : Builder → Build α} (rest : MovesFrom b (f b)) :
    MovesFrom b (MonadState.get >>= f) :=
  Hoare.get_bind rest

theorem MovesFrom.set {b' : Builder} (moves : b.Moves b') :
    MovesFrom b (MonadState.set b' : Build PUnit) :=
  Hoare.set b' fun _ _ => moves

theorem MovesFrom.modify {g : Builder → Builder} (moves : b.Moves (g b)) :
    MovesFrom b (modify g : Build PUnit) :=
  Hoare.modify g fun _ same => same ▸ moves

theorem MovesFrom.throw (e : Error) : MovesFrom b (MonadExcept.throw e : Build α) :=
  Hoare.throw trivial

theorem MovesFrom.afterBump {x : Build α} (rest : MovesFrom { b with pos := b.pos + 1 } x) :
    Hoare (· = b) (bump >>= fun _ => x) (fun _ b' => b.Moves b' ∧ b.pos < b'.pos)
      fun _ => True :=
  Hoare.bind (Hoare.modify _ (Q := fun _ s => s = { b with pos := b.pos + 1 })
      fun _ same => same ▸ rfl)
    fun _ => Hoare.mono rest (fun _ same => same)
      (fun _ _ moved => ⟨⟨moved.events, Nat.le_of_succ_le moved.pos⟩, moved.pos⟩)
      fun _ failed => failed

theorem BuildsFrom.moves {x : Build (Option Nat)} (builds : BuildsFrom b x) : MovesFrom b x :=
  Hoare.mono builds (fun _ start => start) (fun _ _ built => built.1) fun _ failed => failed

theorem BuildsFrom.ofBump {x : Build Nat} (rest : MovesFrom { b with pos := b.pos + 1 } x) :
    BuildsFrom b (bump >>= fun _ => x >>= fun r => Pure.pure (some r)) :=
  Hoare.mono (MovesFrom.afterBump (MovesFrom.bind rest fun _ _ _ => MovesFrom.pure _))
    (fun _ start => start) (fun _ _ ⟨moved, strict⟩ => ⟨moved, fun _ => strict⟩)
    fun _ failed => failed

theorem bump_moves : MovesFrom b bump :=
  Hoare.modify _ fun _ same => same ▸ ⟨rfl, Nat.le_succ _⟩

theorem advance_moves : MovesFrom b advance := by
  unfold advance
  exact MovesFrom.get (MovesFrom.bind (MovesFrom.set ⟨rfl, Nat.le_succ _⟩) fun _ _ _ =>
    MovesFrom.pure _)

theorem peek_moves : MovesFrom b peek := by
  unfold peek
  exact MovesFrom.get (MovesFrom.get (MovesFrom.pure _))

theorem push_moves (kind : NodeKind) (start stop : Position) :
    MovesFrom b (push kind start stop) := by
  unfold push
  refine MovesFrom.get ?_
  split
  · exact MovesFrom.bind (MovesFrom.set ⟨rfl, Nat.le_refl _⟩) fun _ _ _ => MovesFrom.pure _
  · exact MovesFrom.throw _

theorem node_moves (id : Nat) : MovesFrom b (node id) := by
  unfold node
  refine MovesFrom.get ?_
  split
  · exact MovesFrom.pure _
  · exact MovesFrom.throw _

theorem leaveFlow_moves (flow : Bool) : MovesFrom b (leaveFlow flow) := by
  unfold leaveFlow
  refine MovesFrom.get ?_
  split
  · split
    · exact MovesFrom.throw _
    · exact MovesFrom.set ⟨rfl, Nat.le_refl _⟩
  · exact MovesFrom.pure ()

theorem directivesBefore_keeps (source : Text.SourceText) (floor : Nat) (marker : Option Nat) :
    Hoare (· = b) (directivesBefore source floor marker) (fun _ b' => b' = b) fun _ => True := by
  unfold directivesBefore
  split
  · exact Hoare.pure _ fun _ same => same
  · unfold checkSlice
    refine Hoare.bind (Hoare.ite (fun _ => Hoare.pure () fun _ same => same)
      fun _ => Hoare.throw trivial) fun _ => Hoare.pure _ fun _ same => same

theorem childLookup_moves {f : Node → Position} (kid : Option Nat) :
    MovesFrom b (kid.mapM fun c => do return f (← node c)) := by
  cases kid with
  | none => exact MovesFrom.pure none
  | some c =>
    rw [Option.mapM_some]
    exact MovesFrom.bind (MovesFrom.bind (node_moves c) fun _ _ _ => MovesFrom.pure _)
      fun _ _ _ => MovesFrom.pure _

theorem anchorName_moves (id : Nat) : MovesFrom b (anchorName id) := by
  unfold anchorName
  split
  · exact MovesFrom.pure _
  · refine MovesFrom.get ?_
    split
    · exact MovesFrom.pure _
    · exact MovesFrom.throw _

theorem scalar_moves (value : String) (style : ScalarStyle) (anchorId : Nat) (tag : Option Tag)
    (span : Span) : MovesFrom b (scalar value style anchorId tag span) := by
  unfold scalar
  refine MovesFrom.bind (anchorName_moves anchorId) fun anchor b1 _ => MovesFrom.get ?_
  split <;> exact push_moves _ _ _

theorem aliasRef_moves (anchorId : Nat) (span : Span) : MovesFrom b (aliasRef anchorId span) := by
  unfold aliasRef
  refine MovesFrom.get ?_
  dsimp only
  -- whether the name is read from the text, and then whether it is empty
  split
  all_goals
    split
    · refine MovesFrom.bind (anchorName_moves anchorId) fun name b1 _ => ?_
      split
      · exact push_moves _ _ _
      · exact MovesFrom.throw _
    · exact push_moves _ _ _

theorem collection_moves {fuel : Nat} {isMapping : Bool} {anchorId : Nat} {tag : Option Tag}
    {span : Span} (kids : ∀ b', b.Moves b' → MovesFrom b' (children fuel #[])) :
    MovesFrom b (collection fuel isMapping anchorId tag span) := by
  unfold collection
  -- the two kinds of collection differ in the brackets looked for only
  split <;>
  · refine MovesFrom.get ?_
    refine MovesFrom.bind (MovesFrom.set ⟨rfl, Nat.le_refl _⟩) fun _ b1 opened => ?_
    cases opened
    refine MovesFrom.bind (kids _ ⟨rfl, Nat.le_refl _⟩) fun _ _ _ => ?_
    refine MovesFrom.bind advance_moves fun _ _ _ => ?_
    refine MovesFrom.bind (leaveFlow_moves _) fun _ _ _ => MovesFrom.get ?_
    refine MovesFrom.bind (childLookup_moves _) fun _ _ _ => ?_
    refine MovesFrom.bind (childLookup_moves _) fun _ _ _ => ?_
    exact MovesFrom.bind (anchorName_moves _) fun _ _ _ => push_moves _ _ _

theorem rootOr_moves (built : Option Nat) : MovesFrom b (rootOr built) := by
  unfold rootOr
  split
  · exact MovesFrom.pure _
  · exact MovesFrom.get (push_moves _ _ _)

theorem documentStop_moves (rootStop : Position) : MovesFrom b (documentStop rootStop) := by
  unfold documentStop
  refine MovesFrom.bind peek_moves fun e b1 looked => ?_
  split
  · refine MovesFrom.bind bump_moves fun _ b2 _ => MovesFrom.get ?_
    split
    · exact MovesFrom.pure _
    · exact MovesFrom.pure _
  · exact MovesFrom.pure _

/-! The builder's recursive steps unfolded one level, on a given builder. -/

theorem bump_bind_run (k : Unit → Build α) :
    (bump >>= k).run b = (k ()).run { b with pos := b.pos + 1 } := rfl

theorem advance_bind_run (k : Option (Event × Span) → Build α) :
    (advance >>= k).run b = (k b.events[b.pos]?).run { b with pos := b.pos + 1 } := rfl

theorem peek_bind_run (k : Option (Event × Span) → Build α) :
    (peek >>= k).run b = (k b.events[b.pos]?).run b := rfl

theorem buildNode_run (fuel : Nat) :
    (buildNode (fuel + 1)).run b = (match b.events[b.pos]? with
      | some (.scalar v style a tag, span) => do
        bump
        return some (← scalar v style a tag span)
      | some (.mappingStart a tag, span) => do
        bump
        return some (← collection fuel true a tag span)
      | some (.sequenceStart a tag, span) => do
        bump
        return some (← collection fuel false a tag span)
      | some (.alias a, span) => do
        bump
        return some (← aliasRef a span)
      | _ => return none : Build (Option Nat)).run b := by
  rw [buildNode]
  rfl

theorem children_run (fuel : Nat) (acc : Array Nat) :
    (children (fuel + 1) acc).run b = (match b.events[b.pos]? with
      | none => pure acc
      | some (e, _) =>
        if isCollectionEnd e then pure acc
        else buildNode fuel >>= fun r => match r with
          | some c => children fuel (acc.push c)
          | none => bump >>= fun _ => children fuel acc : Build (Array Nat)).run b := by
  rw [children]
  rfl

theorem collection_fuel {f g : Nat} {isMapping : Bool} {anchorId : Nat} {tag : Option Tag}
    {span : Span} (kids : ∀ b', b'.events = b.events → b'.pos = b.pos →
      (children f #[]).run b' = (children g #[]).run b') :
    (collection f isMapping anchorId tag span).run b =
      (collection g isMapping anchorId tag span).run b := by
  unfold collection
  split <;>
  · simp only [StateT.run_bind, StateT.run_get, StateT.run_set, pure_bind]
    congr 1
    exact kids _ rfl rfl

end

theorem buildNode_moves (fuel : Nat) :
    ∀ b, BuildsFrom b (buildNode fuel) ∧ ∀ acc, MovesFrom b (children fuel acc) := by
  induction fuel with
  | zero =>
    intro b
    refine ⟨?_, fun acc => ?_⟩
    · rw [buildNode]
      exact Hoare.pure _ fun _ same => same ▸ ⟨Builder.Moves.refl _, by simp⟩
    · rw [children]
      exact MovesFrom.pure acc
  | succ f ih =>
    intro b
    refine ⟨fun s same => ?_, fun acc => ?_⟩
    · subst s
      show Outcome _ _ ((buildNode (f + 1)).run b)
      rw [buildNode_run]
      split
      · exact BuildsFrom.ofBump (scalar_moves _ _ _ _ _) b rfl
      · exact BuildsFrom.ofBump (collection_moves fun b' _ => (ih b').2 _) b rfl
      · exact BuildsFrom.ofBump (collection_moves fun b' _ => (ih b').2 _) b rfl
      · exact BuildsFrom.ofBump (aliasRef_moves _ _) b rfl
      · show b.Moves b ∧ _
        exact ⟨Builder.Moves.refl b, by simp⟩
    · rw [children]
      refine MovesFrom.bind peek_moves fun e b1 looked => ?_
      cases looked
      split
      · exact MovesFrom.pure acc
      · split
        · exact MovesFrom.pure acc
        · refine MovesFrom.bind (ih b).1.moves fun r b2 _ => ?_
          split
          · exact (ih b2).2 _
          · exact MovesFrom.bind bump_moves fun _ b3 _ => (ih b3).2 acc

/-- Building a node, or the items of a collection, gives the same with any fuel from twice the
events left on. The induction is on the fuel; each item built lowers the events left, and
going down into a collection costs two units (node, items) for the one event it reads. -/
theorem buildNode_fuel (f : Nat) : ∀ g b,
    (2 * b.left + 1 ≤ f → 2 * b.left + 1 ≤ g → (buildNode f).run b = (buildNode g).run b) ∧
    (∀ acc, 2 * b.left + 2 ≤ f → 2 * b.left + 2 ≤ g →
      (children f acc).run b = (children g acc).run b) := by
  induction f with
  | zero => exact fun g b => ⟨fun enough => by omega, fun acc enough => by omega⟩
  | succ f ih =>
    intro g b
    refine ⟨fun enoughF enoughG => ?_, fun acc enoughF enoughG => ?_⟩
    · obtain ⟨g, rfl⟩ : ∃ g', g = g' + 1 := ⟨g - 1, by omega⟩
      rw [buildNode_run, buildNode_run]
      split
      case h_2 | h_3 =>
        -- a mapping or a sequence reads its items with the fuel, from the event after its start
        rename_i anchorId tag span found
        have inside := Builder.pos_lt_of_getElem? found
        rw [bump_bind_run, bump_bind_run, StateT.run_bind, StateT.run_bind,
          collection_fuel fun b' events pos => by
            have next := Builder.left_of_next (b := b) events pos inside
            exact (ih g b').2 #[] (by omega) (by omega)]
      -- a scalar, an alias or no node at all spends no more fuel
      all_goals rfl
    · obtain ⟨g, rfl⟩ : ∃ g', g = g' + 1 := ⟨g - 1, by omega⟩
      rw [children_run, children_run]
      split
      · rfl
      · rename_i e span found
        have inside := Builder.pos_lt_of_getElem? found
        split
        · rfl
        · rw [StateT.run_bind, StateT.run_bind, (ih g b).1 (by omega) (by omega)]
          cases built : (buildNode g).run b with
          | error err => rfl
          | ok result =>
            obtain ⟨r, b1⟩ := result
            obtain ⟨moved, strict⟩ := Hoare.ok_of (buildNode_moves g b).1 rfl built
            cases r with
            | some c =>
              have fewer := moved.left_lt (strict rfl) inside
              exact (ih g b1).2 _ (by omega) (by omega)
            | none =>
              -- nothing built: the event is skipped
              have fewer : ({ b1 with pos := b1.pos + 1 } : Builder).left < b.left :=
                Builder.Moves.left_lt ⟨moved.events, Nat.le_succ_of_le moved.pos⟩
                  (Nat.lt_succ_of_le moved.pos) inside
              exact (ih g { b1 with pos := b1.pos + 1 }).2 acc (by omega) (by omega)

theorem buildNode_fuel_of_size {b : Builder} {F G : Nat} (enoughF : 2 * b.events.size + 1 ≤ F)
    (enoughG : 2 * b.events.size + 1 ≤ G) : (buildNode F).run b = (buildNode G).run b := by
  have bounded := b.left_le_size
  exact (buildNode_fuel F G b).1 (by omega) (by omega)

section

variable {b : Builder}

theorem document_moves (fuel : Nat) :
    ∀ a b', (document fuel).run b = .ok (a, b') → b.Moves b' ∧ b.pos < b'.pos := by
  intro a b' ran
  unfold document at ran
  rw [advance_bind_run] at ran
  suffices rest : MovesFrom { b with pos := b.pos + 1 } _ by
    have moved := Hoare.ok_of rest rfl ran
    exact ⟨⟨moved.events, Nat.le_of_succ_le moved.pos⟩, moved.pos⟩
  refine MovesFrom.get ?_
  refine Hoare.bind_run (directivesBefore_keeps _ _ _) fun _ b0 _ same => ?_
  subst same
  refine MovesFrom.bind (MovesFrom.set ⟨rfl, Nat.le_refl _⟩) fun _ b1 _ => ?_
  refine MovesFrom.bind (buildNode_moves fuel b1).1.moves fun built b2 _ => ?_
  refine MovesFrom.bind (rootOr_moves built) fun root b3 _ => ?_
  refine MovesFrom.bind (node_moves root) fun rootNode b4 _ => ?_
  refine MovesFrom.bind (documentStop_moves rootNode.stop) fun ended b5 _ => ?_
  obtain ⟨stop, implicitEnd⟩ := ended
  refine MovesFrom.bind (push_moves _ _ _) fun id b6 _ => ?_
  exact MovesFrom.bind (MovesFrom.modify ⟨rfl, Nat.le_refl _⟩) fun _ _ _ => MovesFrom.pure id

theorem document_fuel {F G : Nat} (enoughF : 2 * b.events.size + 1 ≤ F)
    (enoughG : 2 * b.events.size + 1 ≤ G) : (document F).run b = (document G).run b := by
  unfold document
  rw [advance_bind_run, advance_bind_run]
  simp only [StateT.run_bind, StateT.run_get, StateT.run_set, pure_bind]
  -- the directives are read alike, and the root is built alike after them
  congr 1
  funext read
  congr 1
  exact buildNode_fuel_of_size enoughF enoughG

end

theorem docs_fuel {b : Builder} {F G : Nat} (enoughF : 2 * b.events.size + 1 ≤ F)
    (enoughG : 2 * b.events.size + 1 ≤ G) :
    ∀ n acc b', b'.events = b.events →
      (stream.docs F n acc).run b' = (stream.docs G n acc).run b' := by
  intro n
  induction n with
  | zero =>
    intro acc b' _
    rw [stream.docs, stream.docs]
  | succ n ih =>
    intro acc b' events
    rw [stream.docs, stream.docs, peek_bind_run, peek_bind_run]
    split
    · rw [StateT.run_bind, StateT.run_bind,
        document_fuel (b := b') (F := F) (G := G) (by rw [events]; exact enoughF)
          (by rw [events]; exact enoughG)]
      cases built : (document G).run b' with
      | error err => rfl
      | ok result =>
        obtain ⟨d, b1⟩ := result
        exact ih _ b1 (((document_moves G d b1 built).1.events).trans events)
    · rfl
    · rfl
    · rw [bump_bind_run, bump_bind_run]
      exact ih acc _ events

/-- The loop over the documents of a stream settles within one round an event left, plus one:
each round reads at least one event. -/
theorem docs_rounds (fuel : Nat) :
    ∀ n m acc b, b.left + 1 ≤ n → b.left + 1 ≤ m →
      (stream.docs fuel n acc).run b = (stream.docs fuel m acc).run b := by
  intro n
  induction n with
  | zero => intro m acc b enough; omega
  | succ n ih =>
    intro m acc b enoughN enoughM
    obtain ⟨m, rfl⟩ : ∃ m', m = m' + 1 := ⟨m - 1, by omega⟩
    rw [stream.docs, stream.docs, peek_bind_run, peek_bind_run]
    split
    · rename_i explicit span found
      have inside := Builder.pos_lt_of_getElem? found
      rw [StateT.run_bind, StateT.run_bind]
      cases built : (document fuel).run b with
      | error err => rfl
      | ok result =>
        obtain ⟨d, b1⟩ := result
        obtain ⟨moved, strict⟩ := document_moves fuel d b1 built
        have fewer := moved.left_lt strict inside
        exact ih m _ b1 (by omega) (by omega)
    · rfl
    · rfl
    · rename_i e span _ _ found
      have inside := Builder.pos_lt_of_getElem? found
      have next : ({ b with pos := b.pos + 1 } : Builder).left + 1 = b.left :=
        Builder.left_of_next rfl rfl inside
      rw [bump_bind_run, bump_bind_run]
      exact ih m acc _ (by omega) (by omega)

/-- A whole stream is built alike with any fuel from twice its events, plus one, on. -/
theorem stream_fuel {b : Builder} {F G : Nat} (enoughF : 2 * b.events.size + 1 ≤ F)
    (enoughG : 2 * b.events.size + 1 ≤ G) : (stream F).run b = (stream G).run b := by
  simp only [stream, StateT.run_bind, StateT.run_get, pure_bind]
  rw [docs_fuel enoughF enoughG _ _ b rfl]

end Build

end AnnotatedYaml
