import Mathlib
import AnnotatedYaml.Proofs.Comment.Analysis

/-! The text between two nodes, read for bullets and comments: the scan finds them at the positions
read on their own. -/

namespace AnnotatedYaml

open Text

namespace Gap

/-- Whether the property word or the comment that starts at position `j` of the gap `r` reaches
over position `i`: a property word runs up to the next white space, a comment up to the next
line feed. -/
def reaches (r : List Char) (j i : Nat) : Bool :=
  let span := (r.drop j).take (i + 1 - j)
  decide (j < i) && decide (i < r.length) &&
    ((r[j]? == some '&' || r[j]? == some '!') && span.all (fun c => !isWhite c) ||
      r[j]? == some '#' && span.all (· != '\n'))

/-- Whether position `i` of `r` is read on its own: no property word or comment read before it
reaches over it. -/
def isRead (r : List Char) (i : Nat) : Bool :=
  (List.range i).attach.all fun j => !(isRead r j.1 && reaches r j.1 i)
termination_by i
decreasing_by exact List.mem_range.mp j.2

/-- What is found at position `i`: a bullet for `-`; for `#` the comment that runs to the next
line feed, without one carriage return at its end. -/
def itemAt (r : List Char) (i : Nat) : Option GapItem :=
  if r[i]? = some '-' then some .bullet
  else if r[i]? = some '#' then
    let text := (r.drop i).takeWhile (· != '\n')
    some (.comment (String.ofList (if text.getLast? == some '\r' then text.dropLast else text)))
  else none

/-- The bullets and comments of the gap `r`: what is found at the positions read on their own,
in order. -/
def items (r : List Char) : List GapItem :=
  (List.range r.length).filterMap fun i => if isRead r i then itemAt r i else none

theorem isRead_iff {r : List Char} {i : Nat} :
    isRead r i = true ↔ ∀ j < i, isRead r j = true → reaches r j i = false := by
  rw [isRead]
  simp only [List.all_eq_true, List.mem_attach, true_implies, Subtype.forall, List.mem_range,
    Bool.not_eq_true', Bool.and_eq_false_iff]
  constructor
  · intro none j below read
    simpa [read] using none j below
  · intro none j below
    by_cases read : isRead r j = true
    · exact .inr (none j below read)
    · exact .inl (by simpa using read)

theorem isRead_zero (r : List Char) : isRead r 0 = true :=
  isRead_iff.mpr fun _ below => absurd below (Nat.not_lt_zero _)

theorem reaches_append (p s : List Char) (j i : Nat) :
    reaches (p ++ s) (p.length + j) (p.length + i) = reaches s j i := by
  have span : p.length + i + 1 - (p.length + j) = i + 1 - j := by omega
  simp only [reaches, List.drop_length_add_append, List.getElem?_append_right (Nat.le_add_right _ _),
    Nat.add_sub_cancel_left, List.length_append, span, Nat.add_lt_add_iff_left]

theorem itemAt_append (p s : List Char) (k : Nat) :
    itemAt (p ++ s) (p.length + k) = itemAt s k := by
  simp only [itemAt, List.getElem?_append_right (Nat.le_add_right _ _), Nat.add_sub_cancel_left,
    List.drop_length_add_append]

variable {p s : List Char}

/-- No property word or comment read in `p` reaches past its end into `s`. -/
def Closed (p s : List Char) : Prop :=
  ∀ j < p.length, isRead (p ++ s) j = true → ∀ i, p.length ≤ i → reaches (p ++ s) j i = false

theorem isRead_append (closed : Closed p s) (k : Nat) :
    isRead (p ++ s) (p.length + k) = isRead s k := by
  induction k using Nat.strong_induction_on with
  | _ k ih =>
    apply Bool.eq_iff_iff.mpr
    rw [isRead_iff, isRead_iff]
    constructor
    · intro none j below read
      have read' : isRead (p ++ s) (p.length + j) = true := (ih j below).trans read
      rw [← reaches_append p s]
      exact none _ (by omega) read'
    · intro none j below read
      by_cases early : j < p.length
      · exact closed j early read _ (Nat.le_add_right _ _)
      · obtain ⟨j, rfl⟩ : ∃ j', j = p.length + j' := ⟨j - p.length, by omega⟩
        rw [reaches_append]
        exact none j (by omega) ((ih j (by omega)).symm.trans read)

theorem items_append (closed : Closed p s) :
    items (p ++ s) = (List.range p.length).filterMap
      (fun i => if isRead (p ++ s) i then itemAt (p ++ s) i else none) ++ items s := by
  unfold items
  rw [List.length_append, List.range_add, List.filterMap_append, List.filterMap_map]
  congr 1
  apply List.filterMap_congr
  intro k _
  simp only [Function.comp_apply, isRead_append closed, itemAt_append]

theorem items_cons_append (c : Char) (w : List Char)
    (inside : ∀ i, 0 < i → i ≤ w.length → reaches (c :: w ++ s) 0 i = true)
    (stops : ∀ i, w.length < i → reaches (c :: w ++ s) 0 i = false) :
    items (c :: w ++ s) = (itemAt (c :: w ++ s) 0).toList ++ items s := by
  -- only the first position of the piece is read on its own
  have only : ∀ j, 0 < j → j ≤ w.length → isRead (c :: w ++ s) j = false := by
    intro j pos within
    cases read : isRead (c :: w ++ s) j
    · rfl
    · have := isRead_iff.mp read 0 pos (isRead_zero _)
      rw [inside j pos within] at this
      cases this
  have closed : Closed (c :: w) s := by
    intro j below read i past
    cases j with
    | zero => exact stops i (by simp at past; omega)
    | succ j =>
      rw [only (j + 1) (Nat.succ_pos j) (by simp at below; omega)] at read
      cases read
  have rest : (List.map Nat.succ (List.range w.length)).filterMap
      (fun i => if isRead (c :: w ++ s) i then itemAt (c :: w ++ s) i else none) = [] := by
    rw [List.filterMap_eq_nil_iff]
    intro i member
    obtain ⟨k, below, rfl⟩ := List.mem_map.mp member
    rw [only (k + 1) (Nat.succ_pos k) (by simp at below; omega)]
    rfl
  rw [items_append closed, List.length_cons, List.range_succ_eq_map, List.filterMap_cons,
    isRead_zero, if_pos rfl, rest]
  cases itemAt (c :: w ++ s) 0 <;> rfl

theorem all_take_iff_le_length_takeWhile (keep : Char → Bool) :
    ∀ (cs : List Char) (i : Nat), i ≤ cs.length →
      ((cs.take i).all keep = true ↔ i ≤ (cs.takeWhile keep).length)
  | [], i, short => by
    obtain rfl : i = 0 := by simpa using short
    simp
  | _ :: _, 0, _ => by simp
  | d :: ds, i + 1, short => by
    have shorter : i ≤ ds.length := by simpa using short
    by_cases kept : keep d = true
    · simp [kept, all_take_iff_le_length_takeWhile keep ds i shorter]
    · simp [kept]

theorem items_of_reaches_nothing (c : Char) (rest : List Char)
    (nothing : ∀ i, reaches (c :: rest) 0 i = false) :
    items (c :: rest) = (itemAt (c :: rest) 0).toList ++ items rest :=
  items_cons_append (s := rest) c [] (fun _ pos within => by simp at within; omega)
    fun i _ => nothing i

theorem items_of_run (c : Char) (rest : List Char) (keep : Char → Bool)
    (reach : ∀ i, reaches (c :: rest) 0 i =
      (decide (0 < i) && decide (i ≤ rest.length) && (rest.take i).all keep)) :
    items (c :: rest) = (itemAt (c :: rest) 0).toList ++ items (rest.dropWhile keep) := by
  have whole : c :: rest = c :: rest.takeWhile keep ++ rest.dropWhile keep := by
    rw [List.cons_append, List.takeWhile_append_dropWhile]
  have run := all_take_iff_le_length_takeWhile keep rest
  have bound := (List.takeWhile_prefix keep (l := rest)).length_le
  rw [whole]
  refine items_cons_append c _ (fun i pos within => ?_) (fun i past => ?_)
  · rw [← whole, reach i]
    simp [pos, (run i (by omega)).mpr within, show i ≤ rest.length by omega]
  · rw [← whole, reach i]
    by_cases short : i ≤ rest.length
    · have cut : (rest.take i).all keep = false := by
        cases kept : (rest.take i).all keep
        · rfl
        · exact absurd ((run i short).mp kept) (by omega)
      simp [cut]
    · simp [short]

end Gap

/-- The scan of a gap finds exactly the bullets and comments at the positions read on their own. -/
theorem gapItems_eq_items (r : List Char) : gapItems r = Gap.items r := by
  induction r using gapItems.induct with
  | case1 =>
    rw [gapItems]
    rfl
  | case2 c rest property ih =>
    -- a property word: its characters up to the next white space are skipped
    rw [gapItems, if_pos property, ih, Gap.items_of_run c rest (fun d => !isWhite d) ?reach]
    · have opener : c = '&' ∨ c = '!' := by simpa using property
      rcases opener with rfl | rfl <;> rfl
    case reach =>
      intro i
      have opener : c = '&' ∨ c = '!' := by simpa using property
      have notWhite : isWhite c = false := by rcases opener with rfl | rfl <;> decide
      rcases opener with rfl | rfl <;> simp [Gap.reaches, List.take_succ_cons, notWhite]
  | case3 c rest notProperty bullet ih =>
    rw [gapItems, if_neg notProperty, if_pos bullet, ih, Gap.items_of_reaches_nothing c rest ?none]
    · have dash : c = '-' := by simpa using bullet
      subst dash
      rfl
    case none =>
      have dash : c = '-' := by simpa using bullet
      subst dash
      intro i
      simp [Gap.reaches]
  | case4 c rest notProperty notBullet hash ih =>
    -- a comment: it runs to the next line feed
    have sharp : c = '#' := by simpa using hash
    subst sharp
    rw [gapItems, if_neg notProperty, if_neg notBullet, if_pos hash, ih,
      Gap.items_of_run '#' rest (· != '\n') ?reach]
    · simp [Gap.itemAt]
    case reach =>
      intro i
      simp [Gap.reaches, List.take_succ_cons]
  | case5 c rest notProperty notBullet notHash ih =>
    rw [gapItems, if_neg notProperty, if_neg notBullet, if_neg notHash, ih,
      Gap.items_of_reaches_nothing c rest ?none]
    · simp [Gap.itemAt, show c ≠ '-' by simpa using notBullet, show c ≠ '#' by simpa using notHash]
    case none =>
      intro i
      simp [Gap.reaches, show c ≠ '&' ∧ c ≠ '!' by simpa using notProperty,
        show c ≠ '#' by simpa using notHash]

namespace GapItem

def isBullet : GapItem → Bool
  | .bullet => true
  | .comment _ => false

/-- The text of a comment; a bullet has none. -/
def text? : GapItem → Option String
  | .bullet => none
  | .comment text => some text

end GapItem

/-- The comments among gap items, in order. -/
def commentsOf (items : List GapItem) : List String := items.filterMap GapItem.text?

/-- The items after the last bullet; all of them when there is no bullet. -/
def afterLastBullet (items : List GapItem) : List GapItem :=
  (items.reverse.takeWhile fun x => !x.isBullet).reverse

/-- The items up to and with the last bullet; none when there is no bullet. -/
def uptoLastBullet (items : List GapItem) : List GapItem :=
  (items.reverse.dropWhile fun x => !x.isBullet).reverse

section LastBullet

variable (items : List GapItem)

@[simp] theorem commentsOf_nil : commentsOf [] = [] := rfl

@[simp] theorem commentsOf_cons_bullet : commentsOf (.bullet :: items) = commentsOf items := rfl

@[simp] theorem commentsOf_cons_comment (text : String) :
    commentsOf (.comment text :: items) = text :: commentsOf items := rfl

@[simp] theorem commentsOf_append (more : List GapItem) :
    commentsOf (items ++ more) = commentsOf items ++ commentsOf more := by
  simp [commentsOf]

theorem uptoLastBullet_append_afterLastBullet :
    uptoLastBullet items ++ afterLastBullet items = items := by
  rw [uptoLastBullet, afterLastBullet, ← List.reverse_append, List.takeWhile_append_dropWhile,
    List.reverse_reverse]

theorem commentsOf_uptoLastBullet_append :
    commentsOf (uptoLastBullet items) ++ commentsOf (afterLastBullet items) = commentsOf items := by
  rw [← commentsOf_append, uptoLastBullet_append_afterLastBullet]

theorem bullet_not_mem_afterLastBullet : GapItem.bullet ∉ afterLastBullet items := by
  intro member
  rw [afterLastBullet, List.mem_reverse] at member
  have := List.mem_takeWhile_imp member
  simp [GapItem.isBullet] at this

theorem uptoLastBullet_ends_with_bullet :
    uptoLastBullet items = [] ∨ (uptoLastBullet items).getLast? = some .bullet := by
  rw [uptoLastBullet, List.reverse_eq_nil_iff, List.getLast?_reverse]
  cases kept : items.reverse.dropWhile (fun x => !x.isBullet) with
  | nil => exact .inl rfl
  | cons y ys =>
    right
    have stop := List.head_dropWhile_not (fun x : GapItem => !x.isBullet) (l := items.reverse)
      (by simp [kept])
    simp only [kept, List.head_cons] at stop
    cases y <;> simp_all [GapItem.isBullet]

@[simp] theorem afterLastBullet_append_bullet : afterLastBullet (items ++ [.bullet]) = [] := by
  simp [afterLastBullet, GapItem.isBullet]

@[simp] theorem uptoLastBullet_append_bullet :
    uptoLastBullet (items ++ [.bullet]) = items ++ [.bullet] := by
  simp [uptoLastBullet, GapItem.isBullet]

@[simp] theorem afterLastBullet_append_comment (text : String) :
    afterLastBullet (items ++ [.comment text]) = afterLastBullet items ++ [.comment text] := by
  simp [afterLastBullet, GapItem.isBullet]

@[simp] theorem uptoLastBullet_append_comment (text : String) :
    uptoLastBullet (items ++ [.comment text]) = uptoLastBullet items := by
  simp [uptoLastBullet, GapItem.isBullet]

end LastBullet

namespace Comments

theorem update_update (c : Comments) (i : Nat) (f g : Attachment → Attachment) :
    (c.update i f).update i g = c.update i (g ∘ f) := by
  unfold update
  dsimp only
  have grown : ¬(Array.modify (if c.slots.size ≤ i then
      c.slots ++ Array.replicate (i + 1 - c.slots.size) ({} : Attachment) else c.slots) i f).size ≤ i := by
    split <;> simp <;> omega
  rw [if_neg grown]
  congr 1
  apply Array.ext (by simp)
  intro j inside _
  simp only [Array.getElem_modify]
  split <;> rfl

theorem get_update (c : Comments) (i j : Nat) (f : Attachment → Attachment) :
    (c.update i f).get j = if j = i then f (c.get i) else c.get j := by
  unfold update get
  dsimp only
  generalize grownDef : (if c.slots.size ≤ i then
    c.slots ++ Array.replicate (i + 1 - c.slots.size) ({} : Attachment) else c.slots) = grown
  -- the table grows by empty slots, which read as the slots past its end did
  have reads : ∀ k, grown.getD k {} = c.slots.getD k {} := by
    intro k
    subst grownDef
    split
    · rcases Nat.lt_or_ge k c.slots.size with below | past
      · simp [Array.getD_eq_getD_getElem?, Array.getElem?_append_left below]
      · simp [Array.getD_eq_getD_getElem?, Array.getElem?_append_right past,
          Array.getElem?_replicate, Array.getElem?_eq_none past]
        split <;> rfl
    · rfl
  have inside : i < grown.size := by
    subst grownDef
    split
    · simp only [Array.size_append, Array.size_replicate]
      omega
    · omega
  rw [← reads i, ← reads j]
  simp only [Array.getD_eq_getD_getElem?, Array.getElem?_modify]
  by_cases same : j = i
  · subst same
    simp [inside]
  · simp [Ne.symm same, same]

theorem addLeading_addLeading (c : Comments) (i : Nat) (xs ys : List String) :
    (c.addLeading i xs).addLeading i ys = c.addLeading i (xs ++ ys) := by
  unfold addLeading
  rw [update_update]
  congr 1
  funext a
  simp [List.append_assoc]

end Comments

namespace Analyzer

/-- The comments a bullet hands to the item `owner`, added to its leading comments; nothing
when there are none. -/
def leadOwner (c : Comments) (owner : Nat) (xs : List String) : Comments :=
  if xs = [] then c else c.addLeading owner xs

theorem leading_leadOwner (c : Comments) (owner : Nat) (xs : List String) (j : Nat) :
    (leadOwner c owner xs).leading j = c.leading j ++ if owner = j then xs else [] := by
  unfold leadOwner
  split
  · rename_i none
    simp [none]
  · simp only [Comments.leading, Comments.addLeading, Comments.get_update]
    by_cases same : owner = j
    · simp [same]
    · simp [same, Ne.symm same]

theorem trailing_leadOwner (c : Comments) (owner : Nat) (xs : List String) (j : Nat) :
    (leadOwner c owner xs).trailing j = c.trailing j := by
  unfold leadOwner
  split
  · rfl
  · simp only [Comments.trailing, Comments.addLeading, Comments.get_update]
    split <;> simp_all

theorem lineEnd_leadOwner (c : Comments) (owner : Nat) (xs : List String) (j : Nat) :
    (leadOwner c owner xs).lineEnd j = c.lineEnd j := by
  unfold leadOwner
  split
  · rfl
  · simp only [Comments.lineEnd, Comments.addLeading, Comments.get_update]
    split <;> simp_all

theorem leadOwner_append (c : Comments) (owner : Nat) (xs ys : List String) :
    leadOwner (leadOwner c owner xs) owner ys = leadOwner c owner (xs ++ ys) := by
  unfold leadOwner
  by_cases first : xs = [] <;> by_cases second : ys = [] <;>
    simp [first, second, Comments.addLeading_addLeading]

/-- Reading the comments up to `upto` reads the gap from the cursor, moves the cursor there and
forgets the pending item; the comments before the last bullet of the gap are added to the
pending item, and the rest are answered; without a pending item all are answered. -/
theorem readComments_runs (upto : Position) (a : Analyzer) :
    Runs (· = a) (readComments upto) fun found b =>
      b = { a with last := upto, bulletOwner := none,
                   comments := (a.bulletOwner.map fun owner => leadOwner a.comments owner
                     (commentsOf (uptoLastBullet (gapItems (a.source.slice a.last upto))))).getD
                     a.comments } ∧
      found = if a.bulletOwner.isSome
        then commentsOf (afterLastBullet (gapItems (a.source.slice a.last upto)))
        else commentsOf (gapItems (a.source.slice a.last upto)) := by
  unfold readComments
  refine Runs.bind Runs.get fun x => Runs.intro ?_
  rintro b ⟨rfl, rfl⟩
  dsimp only
  -- the cursor moves to `upto` and the pending item is forgotten; the loop reads the gap
  refine Runs.bind Runs.set fun _ => Runs.bind (Runs.forIn_from
    (fun done buffered b =>
      b = { x with last := upto, bulletOwner := none,
                   comments := (x.bulletOwner.map fun owner =>
                     leadOwner x.comments owner (commentsOf (uptoLastBullet done))).getD
                     x.comments } ∧
      buffered = if x.bulletOwner.isSome then commentsOf (afterLastBullet done)
        else commentsOf done) ?step _ ?start) fun found => Runs.pure ?finish
  case start =>
    cases x.bulletOwner <;> simp [leadOwner, uptoLastBullet, afterLastBullet]
  case finish => exact fun _ holds => holds
  case step =>
    intro done item acc
    have split := commentsOf_uptoLastBullet_append done
    cases owner : x.bulletOwner with
    | none =>
      cases item with
      | bullet => exact Runs.pure fun b ⟨state, buffered⟩ => ⟨acc, rfl, by simp_all⟩
      | comment text => exact Runs.pure fun b ⟨state, buffered⟩ => ⟨_, rfl, by simp_all⟩
    | some o =>
      cases item with
      | comment text => exact Runs.pure fun b ⟨state, buffered⟩ => ⟨_, rfl, by simp_all⟩
      | bullet =>
        dsimp only
        by_cases empty : acc = []
        · -- nothing is buffered: the bullet hands nothing on
          rw [if_neg (show ¬(!acc.isEmpty) = true by simp [empty])]
          refine Runs.pure fun b ⟨state, buffered⟩ => ⟨acc, rfl, ?_, by simp [empty]⟩
          subst empty
          simp_all
        · -- the buffered comments go to the pending item
          rw [if_pos (show (!acc.isEmpty) = true by simpa using empty)]
          refine Runs.bind Runs.modify fun _ => Runs.pure ?_
          rintro _ ⟨b, ⟨state, buffered⟩, rfl⟩
          refine ⟨[], rfl, ?_, by simp⟩
          simp only [Option.isSome_some, if_true] at buffered
          subst state buffered
          have handed := leadOwner_append x.comments o (commentsOf (uptoLastBullet done))
            (commentsOf (afterLastBullet done))
          rw [split, leadOwner, if_neg empty] at handed
          simp [handed]

/-- Reading the comments before a node scans the gap from the cursor to `upto` for the items at
the positions read on their own. With a pending item, the gap divides at its last bullet: the
comments before it are added to the pending item's leading comments and the rest are answered;
without one, all are answered. Either way the comments handed on and the ones answered are every
comment of the gap, in order, and the cursor moves to `upto` with no item pending. -/
theorem readComments_hands_on_every_comment (upto : Position) (a : Analyzer) :
    gapItems (a.source.slice a.last upto) = Gap.items (a.source.slice a.last upto) ∧
    ∃ before after, Gap.items (a.source.slice a.last upto) = before ++ after ∧
      (a.bulletOwner = none → before = []) ∧
      (a.bulletOwner.isSome →
        GapItem.bullet ∉ after ∧ (before = [] ∨ before.getLast? = some .bullet)) ∧
      ((readComments upto).run a).1 = commentsOf after ∧
      commentsOf before ++ ((readComments upto).run a).1 =
        commentsOf (Gap.items (a.source.slice a.last upto)) ∧
      (∀ j, ((readComments upto).run a).2.comments.leading j =
        a.comments.leading j ++ if a.bulletOwner = some j then commentsOf before else []) ∧
      (∀ j, ((readComments upto).run a).2.comments.trailing j = a.comments.trailing j ∧
        ((readComments upto).run a).2.comments.lineEnd j = a.comments.lineEnd j) ∧
      ((readComments upto).run a).2.last = upto ∧
      ((readComments upto).run a).2.bulletOwner = none ∧
      ((readComments upto).run a).2.source = a.source ∧
      ((readComments upto).run a).2.tree = a.tree := by
  obtain ⟨state, found⟩ := (readComments_runs upto a).run rfl
  rw [gapItems_eq_items] at state found
  refine ⟨gapItems_eq_items _, ?_⟩
  rw [state, found]
  cases owner : a.bulletOwner with
  | none =>
    -- nothing is pending: every comment is answered
    refine ⟨[], _, (List.nil_append _).symm, fun _ => rfl, by simp, ?_⟩
    simp
  | some o =>
    -- the gap divides at its last bullet
    refine ⟨_, _, (uptoLastBullet_append_afterLastBullet _).symm, by simp,
      fun _ => ⟨bullet_not_mem_afterLastBullet _, uptoLastBullet_ends_with_bullet _⟩, ?_⟩
    simp [leading_leadOwner, trailing_leadOwner, lineEnd_leadOwner,
      commentsOf_uptoLastBullet_append]

end Analyzer

end AnnotatedYaml
