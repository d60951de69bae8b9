import Waymark.Proofs.View.AtPosition
import Waymark.Proofs.View.Canonical

/-!
# The listed subtree

The listing for a locator is the branch below the node that it leads to, down to the given number of
levels. What is listed of a node does not depend on how far down the listing goes, so a shorter listing is
a longer one cut off.
-/

namespace Waymark

variable {ν : Type}

/-! ## Cutting -/

def ListedChildren.count : ListedChildren → Nat
  | .all trees => trees.length
  | .placeholder count => count

def ListedTree.cut : Nat → ListedTree → ListedTree
  | 0, .node type label span locator children => .node type label span locator (.placeholder children.count)
  | levels + 1, .node type label span locator (.all trees) =>
    .node type label span locator (.all (trees.map (cut levels)))
  | _ + 1, .node type label span locator (.placeholder count) =>
    .node type label span locator (.placeholder count)

/-! ## Branches as they are listed -/

namespace Host

variable (host : Host ν) (span : ν → Span) (locator : ν → Option Locator)

def listing : Nat → Option Locator → Branch ν → ListedTree
  | 0, top, .node v cs => .node (host.typeName v) (host.shownLabel v) (span v) top (.placeholder cs.length)
  | levels + 1, top, .node v cs =>
    .node (host.typeName v) (host.shownLabel v) (span v) top
      (.all (cs.map fun c => listing levels (locator c.root) c))

variable {host span locator}

theorem cut_listing {levels levels' : Nat} (h : levels ≤ levels') (top : Option Locator) (b : Branch ν) :
    (host.listing span locator levels' top b).cut levels = host.listing span locator levels top b := by
  induction levels generalizing levels' top b with
  | zero =>
    obtain ⟨v, cs⟩ := b
    cases levels' with
    | zero => rfl
    | succ levels' =>
      rw [listing, listing, ListedTree.cut, ListedChildren.count, List.length_map]
  | succ levels ih =>
    obtain ⟨v, cs⟩ := b
    obtain ⟨levels', rfl⟩ : ∃ k, levels' = k + 1 := ⟨levels' - 1, by omega⟩
    rw [listing, ListedTree.cut, List.map_map, listing]
    have hchild : ListedTree.cut levels ∘ (fun c => host.listing span locator levels' (locator c.root) c) =
        fun c => host.listing span locator levels (locator c.root) c :=
      funext fun c => ih (Nat.le_of_succ_le_succ h) _ c
    rw [hchild]

end Host

def reportsTo (span : ν → Span) (locator : ν → Option Locator) (level : Nat) (nodes : List (ν × Nat)) :
    List Diagnostic :=
  (nodes.filter fun x => x.2 ≤ level && (locator x.1).isNone).map fun x => .unlocatableNode (span x.1)

section
variable {span : ν → Span} {locator : ν → Option Locator} {level : Nat}

theorem reportsTo_cons {x : ν × Nat} {nodes : List (ν × Nat)} (h : x.2 ≤ level) :
    reportsTo span locator level (x :: nodes) =
      (if (locator x.1).isNone then [.unlocatableNode (span x.1)] else []) ++
        reportsTo span locator level nodes := by
  rw [reportsTo, List.filter_cons]
  simp only [h, decide_true, Bool.true_and]
  split <;> rfl

theorem reportsTo_flatMap {α : Type} (f : α → List (ν × Nat)) (as : List α) :
    reportsTo span locator level (as.flatMap f) = as.flatMap fun a => reportsTo span locator level (f a) := by
  simp only [reportsTo, List.filter_flatMap, List.map_flatMap]

theorem reportsTo_eq_nil {nodes : List (ν × Nat)} (h : ∀ x ∈ nodes, level < x.2) :
    reportsTo span locator level nodes = [] := by
  rw [reportsTo, List.map_eq_nil_iff, List.filter_eq_nil_iff]
  intro x hx
  simp [h x hx]

end

/-- What is below the root of a branch, in pre-order and with depths that go on from the root's. -/
def Branch.under (depth : Nat) : Branch ν → List (ν × Nat)
  | .node _ cs => orderAll (fun _ => true) (depth + 1) cs

theorem Branch.order_eq (depth : Nat) (b : Branch ν) :
    b.order (fun _ => true) depth = (b.root, depth) :: b.under depth := by
  obtain ⟨v, cs⟩ := b
  rw [order, if_pos rfl]
  rfl

theorem Host.Unfolds.lt_of_mem_under {host : Host ν} {b : Branch ν} (h : host.Unfolds b) {depth : Nat}
    {x : ν × Nat} (hx : x ∈ b.under depth) : depth < x.2 := by
  obtain ⟨v, cs⟩ := b
  rw [Branch.under, Branch.orderAll_eq, List.mem_flatMap] at hx
  obtain ⟨c, hc, hx⟩ := hx
  obtain ⟨path, -, hlen⟩ := (h.child c hc).way_of_mem_order hx
  omega

/-! ## The listing of a view -/

namespace View

variable {w : View ν} {span : ν → Span} {locator : ν → Option Locator}

theorem children_of_unfolds {v : ν} {cs : List (Branch ν)} (h : w.host.Unfolds (.node v cs)) :
    w.childCount v = .ok cs.length ∧ w.children v = .ok (cs.map Branch.root) := by
  have hcount : w.childCount v = .ok cs.length := by
    cases h with
    | node hcount _ _ => exact told_eq_ok.2 hcount
  have hchild : ∀ i ∈ List.range cs.length, w.child v i = .ok ((cs.map Branch.root).getD i v) := by
    intro i hi
    have hlt : i < cs.length := List.mem_range.1 hi
    have hget : cs[i]? = some cs[i] := List.getElem?_eq_getElem hlt
    rw [child_eq_ok.2 (h.lists hget), List.getD_eq_getElem?_getD, List.getElem?_map, hget]
    rfl
  refine ⟨hcount, ?_⟩
  rw [children, hcount]
  show (List.range cs.length).mapM (fun i => w.child v i) = _
  rw [mapM_eq hchild]
  congr 1
  apply List.ext_getElem
  · simp
  · intro i hi hi'
    rw [List.getElem_map, List.getElem_range, List.getD_eq_getElem _ _ hi']

variable [DecidableEq ν]

theorem listEach_eq {list : ν → Option Locator → Except Fault (ListedTree × List Diagnostic)}
    {tree : Branch ν → ListedTree} {reports : Branch ν → List Diagnostic} : ∀ {bs : List (Branch ν)},
    (∀ b ∈ bs, w.locate b.root = .ok (locator b.root) ∧
      list b.root (locator b.root) = .ok (tree b, reports b)) →
    w.listEach list (bs.map Branch.root) = .ok (bs.map tree, bs.flatMap reports)
  | [], _ => rfl
  | b :: bs, h => by
    obtain ⟨hlocate, hlist⟩ := h b (by simp)
    rw [List.map_cons, listEach, hlocate]
    show (list b.root (locator b.root) >>= _) = _
    rw [hlist]
    show (w.listEach list (bs.map Branch.root) >>= _) = _
    rw [listEach_eq fun c hc => h c (by simp [hc])]
    rfl

/-- The listing of a branch, and the reports for what is below its root. -/
theorem listBelow_eq {b : Branch ν} (hb : w.host.Unfolds b)
    (hspan : ∀ v, w.host.Below b.root v → w.span v = .ok (span v))
    (hlocate : ∀ v, w.host.Below b.root v → w.locate v = .ok (locator v)) (levels depth : Nat)
    (top : Option Locator) :
    w.listBelow levels b.root top = .ok (w.host.listing span locator levels top b,
      (if top.isNone then [.unlocatableNode (span b.root)] else []) ++
        reportsTo span locator (depth + levels) (b.under depth)) := by
  induction levels generalizing b depth top with
  | zero =>
    have hnone : reportsTo span locator (depth + 0) (b.under depth) = [] :=
      reportsTo_eq_nil fun x hx => hb.lt_of_mem_under hx
    obtain ⟨v, cs⟩ := b
    rw [hnone, Branch.root, listBelow, hspan v .refl]
    show (w.childCount v >>= _) = _
    rw [(children_of_unfolds hb).1]
    rfl
  | succ levels ih =>
    obtain ⟨v, cs⟩ := b
    have hbelow : ∀ c ∈ cs, ∀ u, w.host.Below c.root u → w.host.Below v u := by
      intro c hc u hu
      obtain ⟨i, hi⟩ := List.mem_iff_getElem?.1 hc
      exact .head ⟨i, hb.lists hi⟩ hu
    have hreports : cs.flatMap (fun c => (if (locator c.root).isNone then [.unlocatableNode (span c.root)] else []) ++
          reportsTo span locator (depth + 1 + levels) (c.under (depth + 1))) =
        reportsTo span locator (depth + (levels + 1)) ((Branch.node v cs).under depth) := by
      rw [Branch.under, Branch.orderAll_eq, reportsTo_flatMap]
      apply List.flatMap_congr
      intro c _
      rw [Branch.order_eq, reportsTo_cons (by omega), Nat.add_assoc, Nat.add_comm 1]
    have hlisted := fun c hc => ih (hb.child c hc) (fun u hu => hspan u (hbelow c hc u hu))
      (fun u hu => hlocate u (hbelow c hc u hu)) (depth + 1) (locator c.root)
    have heach := listEach_eq fun c hc => ⟨hlocate c.root (hbelow c hc _ .refl), hlisted c hc⟩
    rw [hreports] at heach
    obtain ⟨hcount, hchildren⟩ := children_of_unfolds hb
    rw [Branch.root, listBelow, hspan v .refl]
    show (w.childCount v >>= _) = _
    rw [hcount]
    show (w.children v >>= _) = _
    rw [hchildren]
    show (w.listEach (w.listBelow levels) (cs.map Branch.root) >>= _) = _
    rw [heach]
    rfl

theorem subtree_of_none {l : Locator} (h : w.resolve l = .ok none) (levels : Nat) :
    w.subtree l levels = .ok { tree := none, diagnostics := [.noMatchingNode l.result.span] } := by
  rw [subtree, h]
  rfl

theorem subtree_of_some {l : Locator} {found : Resolution ν} (h : w.resolve l = .ok (some found)) {b : Branch ν}
    (hroot : b.root = found.node) (hb : w.host.Unfolds b)
    (hspan : ∀ v, w.host.Below b.root v → w.span v = .ok (span v))
    (hlocate : ∀ v, w.host.Below b.root v → w.locate v = .ok (locator v)) (levels : Nat) :
    w.subtree l levels = .ok {
      tree := some (w.host.listing span locator levels (some found.locator) b)
      diagnostics := reportsTo span locator levels (b.under 0) } := by
  have hlist := listBelow_eq hb hspan hlocate levels 0 (some found.locator)
  rw [Nat.zero_add, hroot] at hlist
  rw [subtree, h]
  show (w.listBelow levels found.node (some found.locator) >>= _) = _
  rw [hlist]
  rfl

end View

/-! ## In every snapshot -/

open Op Snapshot

theorem Rebuild.resolve_eq_none [DecidableEq ν] {B : Rebuild ν ν} {t : Snapshot ν} {l : Locator}
    (ht : t.Of B.copy B.Kept) (h : ((resolve l).exec B.copy.host t).1 = .ok none) :
    B.view.resolve l = .ok none := by
  have hfits : B.Fits t (resolve l) _ _ := fits_resolve l
  have hagree := hfits.agree ht
  rw [h] at hagree
  generalize B.view.resolve l = found at hagree ⊢
  cases hagree with
  | ok hrel =>
    cases hrel
    rfl

theorem Host.Grown.ne_of_precedes {host : Host ν} {N : ν → Prop} (hg : host.Grown N) {a v u : ν} (ha : N a)
    (h : host.Precedes a v u) : v ≠ u := by
  intro he
  subst he
  obtain ⟨q, r, hq, hr, hlt⟩ := h
  obtain rfl := hg.way_unique ha hq hr
  exact List.lt_irrefl _ hlt

theorem Host.Unfolds.nodup_order {host : Host ν} {N : ν → Prop} (hg : host.Grown N) {b : Branch ν}
    (hb : host.Unfolds b) (hroot : N b.root) : ((b.order (fun _ => true) 0).map Prod.fst).Nodup := by
  rw [List.Nodup, List.pairwise_map]
  exact (hb.pairwise_order 0).imp fun h => hg.ne_of_precedes hroot h

namespace Snapshot

variable [DecidableEq ν] {host : Host ν} {root : ν} {N : ν → Prop} {s : Snapshot ν}

/-- On a rooted forest a locator that leads to a node is answered with the branch at and below the node, down to
the level asked for: each node with its type, label and span, the top one with the locator of the answer and
all others with the one they have. At the last level the children are counted. What is below the top and
has no locator is reported, each node once and in pre-order. A locator that leads nowhere is answered with one
report. The listing down to a level is what is left of any longer one, and what was asked before does not
matter. -/
theorem History.subtree_truncated (h : s.History host root) (ht : host.RootedForest root N)
    (ho : ∀ p v, N p → N v → ∃ o, host.origin p v = .ok o) (l : Locator) :
    (∀ r, ((resolve l).exec host s).1 = .ok (some r) →
      ∃ (b : Branch ν) (span : ν → Span) (locator : ν → Option Locator),
        b.root = r.node.host ∧ host.Unfolds b ∧ ((b.order (fun _ => true) 0).map Prod.fst).Nodup ∧
        (∀ v, host.Below b.root v → ((spanOf v).exec host s).1 = .ok (span v) ∧
          ((locatorOf v).exec host s).1 = .ok (locator v)) ∧
        ∀ (t : Snapshot ν) (levels : Nat), t.History host root → t.config = s.config →
          ((subtree l levels).exec host t).1 = .ok {
            tree := some (host.listing span locator levels (some r.locator) b)
            diagnostics := reportsTo span locator levels (b.under 0) }) ∧
    (((resolve l).exec host s).1 = .ok none →
      ∀ (t : Snapshot ν) (levels : Nat), t.History host root → t.config = s.config →
        ((subtree l levels).exec host t).1 =
          .ok { tree := none, diagnostics := [.noMatchingNode l.result.span] }) ∧
    ∀ levels levels', levels ≤ levels' →
      ((subtree l levels).exec host s).1.map (·.tree) =
        ((subtree l levels').exec host s).1.map fun x => x.tree.map (ListedTree.cut levels) := by
  let w : View ν := ⟨host, s.config, root⟩
  let B := View.ofForest (w := w) ht
  have hof : s.Of B.copy B.Kept := Rebuild.of_history h rfl
  have hrun : ∀ (t : Snapshot ν) (levels : Nat), t.History host root → t.config = s.config →
      ((subtree l levels).exec host t).1 = w.subtree l levels := by
    intro t levels hh hc
    have ht' : t.Of B.copy B.Kept := Rebuild.of_history hh hc
    exact ((Rebuild.fits_subtree (B := B) l levels).agree ht').eq
  -- The branch below a node that was found, and what is said about its nodes.
  have hfound : ∀ found, N found.node → w.resolve l = .ok (some found) →
      ∃ (b : Branch ν) (span : ν → Span) (locator : ν → Option Locator), b.root = found.node ∧
        host.Unfolds b ∧ (∀ v, host.Below b.root v → w.span v = .ok (span v) ∧ w.locate v = .ok (locator v)) ∧
        ∀ levels, w.subtree l levels = .ok {
          tree := some (host.listing span locator levels (some found.locator) b)
          diagnostics := reportsTo span locator levels (b.under 0) } := by
    intro found hv hresolve
    obtain ⟨b, hroot, hb⟩ := (ht.grown.branches hv).exists_branch
    have htold : ∀ v, ∃ span locator, host.Below b.root v → w.span v = .ok span ∧ w.locate v = .ok locator := by
      intro v
      by_cases hbelow : host.Below b.root v
      · have hN := ht.grown.below hv (hroot ▸ hbelow)
        obtain ⟨span, hspan, -⟩ := View.span_gives (w := w) ht hN
        obtain ⟨locator, hlocator⟩ := View.locate_ends (w := w) ht ho hN
        exact ⟨span, locator, fun _ => ⟨hspan, hlocator⟩⟩
      · exact ⟨.none, none, fun hbelow' => absurd hbelow' hbelow⟩
    choose span locator htold using htold
    exact ⟨b, span, locator, hroot, hb, htold, View.subtree_of_some (w := w) hresolve hroot hb
      (fun v hv => (htold v hv).1) fun v hv => (htold v hv).2⟩
  refine ⟨?_, ?_, ?_⟩
  · intro r hr
    obtain ⟨found, hresolve, hsame⟩ := Rebuild.found_of_resolve (B := B) hof hr
    obtain ⟨b, span, locator, hroot, hb, htold, hsubtree⟩ := hfound found hsame.node.2 hresolve
    have hN : ∀ v, host.Below b.root v → N v := fun v hv => ht.grown.below (hroot ▸ hsame.node.2) hv
    refine ⟨b, span, locator, hroot.trans hsame.node.host.symm, hb,
      hb.nodup_order ht.grown (hN _ .refl), fun v hv => ⟨?_, ?_⟩, fun t levels hh hc => ?_⟩
    · exact ((fits_spanOf (B := B) (hN v hv)).agree hof).eq.trans (htold v hv).1
    · exact ((fits_locatorOf (B := B) (hN v hv)).agree hof).eq.trans (htold v hv).2
    · rw [hrun t levels hh hc, hsubtree, hsame.locator]
  · intro hnone t levels hh hc
    rw [hrun t levels hh hc]
    exact View.subtree_of_none (Rebuild.resolve_eq_none (B := B) hof hnone) levels
  · intro levels levels' hle
    rw [hrun s levels h rfl, hrun s levels' h rfl]
    cases hresolve : w.resolve l with
    | error e =>
      rw [View.subtree, View.subtree, hresolve]
      rfl
    | ok found =>
      cases found with
      | none =>
        rw [View.subtree_of_none hresolve, View.subtree_of_none hresolve]
        rfl
      | some found =>
        obtain ⟨r, -, hsame⟩ := Rebuild.resolve_of_found (B := B) hof hresolve
        obtain ⟨b, span, locator, -, -, -, hsubtree⟩ := hfound found hsame.node.2 hresolve
        rw [hsubtree, hsubtree]
        exact congrArg (fun tree => Except.ok (some tree)) (Host.cut_listing hle _ b).symm

end Snapshot

/-! ## A result that no one owns up to -/

/-- The root has a call for a result, with one node below it. The result has no parent, and it is not told
that it comes from a call. -/
inductive OrphanNode where
  | file
  | result
  | leaf
  deriving DecidableEq

namespace OrphanNode

def tree : Host OrphanNode where
  size := 3
  childCount v := .ok (if v = result then 1 else 0)
  child _ _ := .ok leaf
  parent v := .ok (if v = leaf then some result else none)
  typeName v := match v with
    | file => "Block"
    | result => "Expr"
    | leaf => "Leaf"
  packedSpan v := match v with
    | file => some ⟨1, 9⟩
    | result => some ⟨2, 8⟩
    | leaf => some ⟨3, 4⟩
  invoke v name _ := .ok (if v = file ∧ name = "make" then some result else none)
  bounded := ⟨[file, result, leaf], by simp, fun v _ => by cases v <;> simp⟩

theorem lists_tree {p c : OrphanNode} {i : Nat} (h : tree.Lists p i c) : p = result ∧ i = 0 ∧ c = leaf := by
  obtain ⟨count, hcount, hi, hc⟩ := h
  simp only [tree, Except.ok.injEq] at hcount hc
  split at hcount
  · exact ⟨by assumption, by omega, hc.symm⟩
  · omega

theorem hasParent_tree {v p : OrphanNode} (h : tree.HasParent v p) : v = leaf ∧ p = result := by
  simp only [Host.HasParent, tree, Except.ok.injEq] at h
  split at h
  · exact ⟨by assumption, (Option.some.inj h).symm⟩
  · cases h

theorem rootedForest_tree : tree.RootedForest file fun _ => True where
  grown :=
    { childCount := fun _ _ => ⟨_, rfl⟩
      child := fun _ _ _ _ _ _ => ⟨_, rfl⟩
      parent := fun _ _ => ⟨_, rfl⟩
      down := fun _ _ _ _ _ => trivial
      up := fun _ _ _ _ => trivial
      parent_child := by
        rintro p c - ⟨i, hi⟩
        obtain ⟨rfl, -, rfl⟩ := lists_tree hi
        rfl
      once := fun p i j c _ hi hj => (lists_tree hi).2.1.trans (lists_tree hj).2.1.symm
      circle := fun v _ => by
        refine not_circle_of_lt (fun v => if v = leaf then 1 else 0) (fun v p h => ?_) v
        obtain ⟨rfl, rfl⟩ := hasParent_tree h
        decide }
  closed := ⟨by simp, by simp, by simp, by simp⟩
  isNode_root := trivial
  arguments v _ := by
    refine ⟨v, fun m hm => ?_⟩
    obtain ⟨u, x, o, -, he, -⟩ := hm
    cases he with
    | call _ ho => cases ho
    | proxy _ _ _ _ ho => cases ho

theorem unfolds_tree {b : Branch OrphanNode} (hroot : b.root = result) (h : tree.Unfolds b) :
    b = .node result [.node leaf []] := by
  cases h with
  | @node v cs hcount hchild hcs =>
    obtain rfl : v = result := hroot
    obtain ⟨c, rfl⟩ := List.length_eq_one_iff.1 (Except.ok.inj hcount).symm
    have hc := hcs c (by simp)
    have hleaf : leaf = c.root := Except.ok.inj (hchild 0 c rfl)
    cases hc with
    | @node u ds hcount' _ _ =>
      obtain rfl : leaf = u := hleaf
      rw [List.eq_nil_of_length_eq_zero (Except.ok.inj hcount').symm]

def making : Locator := ⟨{ type := "Expr", span := ⟨2, 8⟩, depth := 1 }, [.derived ⟨"make", []⟩]⟩

def asked : Snapshot OrphanNode := ((Request.node leaf).op.exec tree (ofRoot {} tree file)).2

theorem subtree_truncated_tree :
    ((resolve making).exec tree asked).1.map (Option.map (·.locator)) = .ok (some making) ∧
      ∃ listed : ListedTree,
        ((subtree making 1).exec tree asked).1 =
          .ok { tree := some listed, diagnostics := [.unlocatableNode ⟨3, 4⟩] } ∧
        ((subtree making 0).exec tree asked).1 = .ok { tree := some (listed.cut 0), diagnostics := [] } := by
  have hasked : asked.History tree file := (History.fresh {}).request (.node leaf)
  have hresolve : ((resolve making).exec tree asked).1.map (Option.map (·.locator)) = .ok (some making) := by
    decide +kernel
  have hnode : ((resolve making).exec tree asked).1.map (Option.map (·.node.host)) = .ok (some result) := by
    decide +kernel
  have hleaf : ((spanOf leaf).exec tree asked).1 = .ok ⟨3, 4⟩ ∧ ((locatorOf leaf).exec tree asked).1 = .ok none := by
    decide +kernel
  refine ⟨hresolve, ?_⟩
  obtain ⟨hsome, -, hcut⟩ := hasked.subtree_truncated rootedForest_tree (fun _ _ _ _ => ⟨none, rfl⟩) making
  cases hrun : ((resolve making).exec tree asked).1 with
  | error e =>
    rw [hrun] at hresolve
    cases hresolve
  | ok o =>
    rw [hrun] at hresolve hnode
    cases o with
    | none => cases hresolve
    | some r =>
      have hscion : r.node.host = result := Option.some.inj (Except.ok.inj hnode)
      obtain ⟨b, span, locator, hroot, hb, -, htold, hlisted⟩ := hsome r hrun
      obtain rfl := unfolds_tree (hroot.trans hscion) hb
      obtain ⟨hspan, hlocator⟩ := htold leaf (.single ⟨0, 1, rfl, Nat.one_pos, rfl⟩)
      rw [hleaf.1] at hspan
      rw [hleaf.2] at hlocator
      have hone := hlisted asked 1 hasked rfl
      have hzero := hlisted asked 0 hasked rfl
      have hreports : reportsTo span locator 1 (Branch.under 0 (.node result [.node leaf []])) =
          [.unlocatableNode ⟨3, 4⟩] := by
        have hnone : (locator leaf).isNone = true := by rw [← Except.ok.inj hlocator]; rfl
        simp [reportsTo, Branch.under, Branch.orderAll, Branch.order, hnone, ← Except.ok.inj hspan]
      rw [hreports] at hone
      have hcut' := hcut 0 1 (Nat.zero_le 1)
      rw [hone, hzero] at hcut'
      have htree := Option.some.inj (Except.ok.inj hcut')
      refine ⟨_, hone, ?_⟩
      rw [hzero, htree]
      rfl

end OrphanNode

end Waymark
