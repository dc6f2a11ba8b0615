import SymbolPatterns.Path
import SymbolPatterns.Proofs.Text.RawText
import SymbolPatterns.Proofs.Text.Split

/-!
The parent of a path that ends in a name: its text is cut where the component
before ends, and what is left takes the steps in front of the name and no
others. Paths with the same components take the same steps. Joining is
associative.
-/

namespace SymbolPatterns.Path

/-- A piece that leads somewhere: it is not empty and not a single dot. Two
dots lead upwards and count. -/
def isStep (piece : List UInt8) : Bool := (Component.ofPiece? piece).isSome

theorem isStep_eq_false_iff {piece : List UInt8} :
    isStep piece = false ↔ piece = [] ∨ piece = [dot] := by
  unfold isStep Component.ofPiece?
  split
  · simp
  · simp
  · simp
  · next hempty hdot _ => simpa using ⟨hempty, hdot⟩

theorem ofPiece?_eq_none {piece : List UInt8} (h : isStep piece = false) :
    Component.ofPiece? piece = none := by
  simpa [isStep] using h

theorem exists_component {piece : List UInt8} (h : isStep piece = true) :
    ∃ component, Component.ofPiece? piece = some component ∧ component ≠ .root := by
  obtain ⟨component, hcomponent⟩ := Option.isSome_iff_exists.1 h
  refine ⟨component, hcomponent, ?_⟩
  rintro rfl
  unfold Component.ofPiece? at hcomponent
  split at hcomponent <;> simp at hcomponent

theorem spansFrom_append (start : Nat) (front rest : List (List UInt8)) :
    spansFrom start (front ++ rest) =
      spansFrom start front ++ spansFrom (start + Text.span front) rest := by
  induction front generalizing start with
  | nil => rfl
  | cons piece front ih =>
      have hstart : start + Text.span (piece :: front) =
          start + piece.length + 1 + Text.span front := by
        simp [Text.span]
        omega
      rw [List.cons_append, spansFrom, spansFrom, ih, hstart]
      cases Component.ofPiece? piece <;> rfl

theorem spansFrom_step {start : Nat} {piece : List UInt8} {component : Component}
    (h : Component.ofPiece? piece = some component) :
    spansFrom start [piece] = [(component, start + piece.length)] := by
  simp [spansFrom, h]

theorem spansFrom_eq_nil {start : Nat} {pieces : List (List UInt8)}
    (h : ∀ piece ∈ pieces, isStep piece = false) : spansFrom start pieces = [] := by
  induction pieces generalizing start with
  | nil => rfl
  | cons piece rest ih =>
      obtain ⟨hpiece, hrest⟩ := List.forall_mem_cons.1 h
      rw [spansFrom, ofPiece?_eq_none hpiece]
      exact ih hrest

/-- Some pieces are no steps, or one of them is the last step. The parent of a
path is cut in front of that one. -/
theorem last_step_cases (pieces : List (List UInt8)) :
    (∀ piece ∈ pieces, isStep piece = false) ∨
      ∃ front piece after, pieces = front ++ piece :: after ∧ isStep piece = true ∧
        ∀ other ∈ after, isStep other = false := by
  induction pieces with
  | nil => exact .inl nofun
  | cons first rest ih =>
      rcases ih with hrest | ⟨front, piece, after, rfl, hpiece, hafter⟩
      · cases hfirst : isStep first with
        | false => exact .inl (List.forall_mem_cons.2 ⟨hfirst, hrest⟩)
        | true => exact .inr ⟨[], first, rest, rfl, hfirst, hrest⟩
      · exact .inr ⟨first :: front, piece, after, rfl, hpiece, hafter⟩

theorem spansFrom_last_step {start : Nat} {front after : List (List UInt8)} {piece : List UInt8}
    {component : Component} (hpiece : Component.ofPiece? piece = some component)
    (hafter : ∀ other ∈ after, isStep other = false) :
    spansFrom start (front ++ piece :: after) = spansFrom start front ++
      [(component, start + Text.span front + piece.length)] := by
  have hsplit : front ++ piece :: after = front ++ ([piece] ++ after) := rfl
  rw [hsplit, spansFrom_append, spansFrom_append, spansFrom_step hpiece, spansFrom_eq_nil hafter,
    List.append_nil]

/-- The text of a path up to a position. The parent of a path is a front part
of its text and not a text that is put together. -/
def cut (path : Path) (stop : Nat) : Path := ⟨.ofList (path.raw.toList.take stop)⟩

theorem parent?_eq {path : Path} {before : List (Component × Nat)} {last : Component}
    {stop : Nat} (h : path.spans = before ++ [(last, stop)]) (hlast : last ≠ .root) :
    path.parent? = some ((before.getLast?.map fun mark => path.cut mark.2).getD ⟨""⟩) := by
  have hreverse : path.spans.reverse = (last, stop) :: before.reverse := by simp [h]
  unfold parent?
  rw [hreverse]
  rcases List.eq_nil_or_concat before with rfl | ⟨others, ⟨component, stop⟩, rfl⟩
  · cases last <;> first | rfl | exact absurd rfl hlast
  · simp [cut]

theorem isAbsolute_cut {path : Path} {stop : Nat} (h : 0 < stop) :
    (path.cut stop).isAbsolute = path.isAbsolute := by
  obtain ⟨less, rfl⟩ : ∃ less, stop = less + 1 := ⟨stop - 1, by omega⟩
  cases htext : path.raw.toList <;> simp [isAbsolute, cut, htext]

theorem pieces_cut {path : Path} {front after : List (List UInt8)} {piece : List UInt8} {stop : Nat}
    (h : path.pieces = front ++ piece :: after) (hstop : stop = Text.span front + piece.length) :
    (path.cut stop).pieces = front ++ [piece] := by
  rw [pieces, cut, RawText.toList_ofList, hstop]
  exact Text.splitAt_take h

theorem cut_ne_empty {path : Path} {stop : Nat} (hpath : path.raw ≠ "") (h : 0 < stop) :
    (path.cut stop).raw ≠ "" := by
  have hoctets : path.raw.toList ≠ [] := mt RawText.toList_eq_nil_iff.1 hpath
  refine mt RawText.toList_eq_nil_iff.2 ?_
  simp [cut, hoctets, Nat.ne_of_gt h]

theorem mem_cut {path : Path} {stop : Nat} {c : UInt8}
    (h : c ∈ (path.cut stop).raw.toList) : c ∈ path.raw.toList := by
  rw [cut, RawText.toList_ofList] at h
  exact List.mem_of_mem_take h

theorem filter_isStep_eq_nil {pieces : List (List UInt8)}
    (h : ∀ piece ∈ pieces, isStep piece = false) : pieces.filter isStep = [] :=
  List.filter_eq_nil_iff.2 fun piece hpiece => by simp [h piece hpiece]

/-- The components of a path that ends in a name: a leading slash and a
leading dot count by themselves, the pieces behind them as steps. -/
theorem spans_cases {path : Path} {directory : List (List UInt8)} {name : List UInt8}
    (h : path.pieces = directory ++ [name]) (hname : isStep name = true) :
    ∃ marks lead rest, directory = lead ++ rest ∧ lead.filter isStep = [] ∧
      path.spans = marks ++ spansFrom (Text.span lead) (rest ++ [name]) ∧
      (marks = [] ∧ path.isAbsolute = false ∨
        ∃ mark, marks = [(mark, 1)] ∧ (path.cut 1).pieces.filter isStep = []) := by
  unfold spans
  cases habsolute : path.isAbsolute with
  | true =>
      refine ⟨[(.root, 1)], [], directory, rfl, rfl, by rw [h]; rfl, .inr ⟨.root, rfl, ?_⟩⟩
      obtain ⟨rest, htext⟩ : ∃ rest, path.raw.toList = slash :: rest := by
        simpa [isAbsolute, List.head?_eq_some_iff] using habsolute
      simp [pieces, cut, htext, Text.splitAt, isStep, Component.ofPiece?]
  | false =>
      rw [if_neg Bool.false_ne_true]
      split
      · next rest hpieces =>
        have hcut : (path.cut 1).pieces = [] ++ [[dot]] := pieces_cut hpieces rfl
        rw [h] at hpieces
        rcases List.append_eq_cons_iff.1 hpieces with ⟨-, hlast⟩ | ⟨others, rfl, rfl⟩
        · obtain ⟨rfl, -⟩ := List.cons.inj hlast
          cases hname
        · have hmark : (path.cut 1).pieces.filter isStep = [] := by
            rw [hcut]
            rfl
          exact ⟨[(.here, 1)], [[dot]], others, rfl, rfl, rfl, .inr ⟨.here, rfl, hmark⟩⟩
      · exact ⟨[], [], directory, rfl, rfl, by rw [h]; rfl, .inl ⟨rfl, rfl⟩⟩

/-- The parent of a path that ends in a name is empty where nothing stands in
front of the name. Else it starts where the path starts and takes the same
steps up to the name. Slashes and dots between the two are cut off with it,
and those further in front stay. -/
theorem exists_parent {path : Path} {directory : List (List UInt8)} {name : List UInt8}
    (h : path.pieces = directory ++ [name]) (hname : isStep name = true) :
    ∃ parent, path.parent? = some parent ∧ (∀ c ∈ parent.raw.toList, c ∈ path.raw.toList) ∧
      (parent.raw = "" ∧ path.isAbsolute = false ∧ directory.filter isStep = [] ∨
        parent.raw ≠ "" ∧ parent.isAbsolute = path.isAbsolute ∧
          parent.pieces.filter isStep = directory.filter isStep) := by
  have hpath : path.raw ≠ "" := by
    intro hempty
    have hpieces : path.pieces = [] ++ [[]] := by simp [pieces, hempty, Text.splitAt]
    obtain ⟨-, hlast⟩ := List.append_inj' (h.symm.trans hpieces) rfl
    rw [List.singleton_inj.1 hlast] at hname
    cases hname
  obtain ⟨last, hlast, hroot⟩ := exists_component hname
  obtain ⟨marks, lead, rest, rfl, hlead, hspans, hmarks⟩ := spans_cases h hname
  rw [spansFrom_append, spansFrom_step hlast, ← List.append_assoc] at hspans
  refine ⟨_, parent?_eq hspans hroot, ?_, ?_⟩
  · intro c hc
    cases hmark : (marks ++ spansFrom (Text.span lead) rest).getLast? with
    | none =>
        rw [hmark] at hc
        cases hc
    | some mark =>
        rw [hmark] at hc
        exact mem_cut hc
  rcases last_step_cases rest with hrest | ⟨front, piece, after, rfl, hpiece, hafter⟩
  · have hsteps : (lead ++ rest).filter isStep = [] := by
      rw [List.filter_append, hlead, filter_isStep_eq_nil hrest, List.append_nil]
    rw [spansFrom_eq_nil hrest, List.append_nil, hsteps]
    rcases hmarks with ⟨rfl, hrelative⟩ | ⟨mark, rfl, hmark⟩
    · exact .inl ⟨rfl, hrelative, rfl⟩
    · exact .inr ⟨cut_ne_empty hpath Nat.one_pos, isAbsolute_cut Nat.one_pos, hmark⟩
  · obtain ⟨component, hcomponent, -⟩ := exists_component hpiece
    have hstop : Text.span lead + Text.span front + piece.length =
        Text.span (lead ++ front) + piece.length := by rw [Text.span_append]
    have hpositive : 0 < Text.span (lead ++ front) + piece.length := by
      cases piece with
      | nil => cases hpiece
      | cons c piece => exact Nat.add_pos_right _ (Nat.succ_pos _)
    have hpieces : path.pieces = (lead ++ front) ++ piece :: (after ++ [name]) := by
      rw [h]
      simp
    have hcut := pieces_cut hpieces rfl
    rw [spansFrom_last_step hcomponent hafter, ← List.append_assoc, List.getLast?_concat, hstop]
    refine .inr ⟨cut_ne_empty hpath hpositive, isAbsolute_cut hpositive, ?_⟩
    rw [Option.map_some, Option.getD_some, hcut]
    simp [List.filter_append, hpiece, filter_isStep_eq_nil hafter]

def Component.piece? : Component → Option (List UInt8)
  | root | here => none
  | up => some [dot, dot]
  | name text => some text.toList

theorem piece?_ofPiece? (piece : List UInt8) :
    (Component.ofPiece? piece).bind Component.piece? =
      if isStep piece = true then some piece else none := by
  unfold isStep Component.ofPiece?
  split <;> simp [Component.piece?]

theorem map_fst_spansFrom (start : Nat) (pieces : List (List UInt8)) :
    (spansFrom start pieces).map Prod.fst = pieces.filterMap Component.ofPiece? := by
  induction pieces generalizing start with
  | nil => rfl
  | cons piece rest ih =>
      rw [spansFrom, List.filterMap_cons, ← ih (start + piece.length + 1)]
      cases Component.ofPiece? piece <;> rfl

/-- The components of a path: a mark for how it starts, and then those of its
pieces. A leading dot is such a mark, while dots further on leave no
component. -/
theorem components_eq (path : Path) :
    ∃ lead, path.components = lead ++ path.pieces.filterMap Component.ofPiece? ∧
      (path.isAbsolute = true ∧ lead = [.root] ∨
        path.isAbsolute = false ∧ (lead = [] ∨ lead = [.here])) := by
  unfold components spans
  split
  · next habsolute =>
    exact ⟨[.root], by rw [List.map_cons, map_fst_spansFrom]; rfl, .inl ⟨habsolute, rfl⟩⟩
  · next hrelative =>
    rw [Bool.not_eq_true] at hrelative
    split
    · next rest hpieces =>
      refine ⟨[.here], ?_, .inr ⟨hrelative, .inr rfl⟩⟩
      rw [List.map_cons, map_fst_spansFrom, hpieces]
      rfl
    · exact ⟨[], map_fst_spansFrom 0 path.pieces, .inr ⟨hrelative, .inl rfl⟩⟩

/-- Only the start of a path is the root, so a component that is the root
tells that a path is absolute. -/
theorem root_not_mem (pieces : List (List UInt8)) :
    Component.root ∉ pieces.filterMap Component.ofPiece? := by
  intro hmem
  obtain ⟨piece, -, hpiece⟩ := List.mem_filterMap.1 hmem
  obtain ⟨component, hcomponent, hne⟩ := exists_component (Option.isSome_iff_exists.2 ⟨_, hpiece⟩)
  exact hne (Option.some.inj (hcomponent.symm.trans hpiece))

/-- The steps of a path are told by its components, and so is whether it
starts at the root. The converse fails for a leading dot, which is a component
and no step. -/
theorem components_tell (path : Path) :
    path.components.filterMap Component.piece? = path.pieces.filter isStep ∧
      (Component.root ∈ path.components ↔ path.isAbsolute = true) := by
  have hsteps : (path.pieces.filterMap Component.ofPiece?).filterMap Component.piece? =
      path.pieces.filter isStep := by
    have hpiece : (fun piece => (Component.ofPiece? piece).bind Component.piece?) =
        Option.guard isStep := funext piece?_ofPiece?
    rw [List.filterMap_filterMap, hpiece, List.filterMap_eq_filter]
  have hroot := root_not_mem path.pieces
  obtain ⟨lead, hlead, ⟨habsolute, rfl⟩ | ⟨hrelative, rfl | rfl⟩⟩ := components_eq path
  · rw [hlead, habsolute, List.filterMap_append, hsteps]
    exact ⟨rfl, iff_of_true List.mem_cons_self rfl⟩
  · rw [hlead, hrelative, List.nil_append, hsteps]
    exact ⟨rfl, iff_of_false hroot Bool.false_ne_true⟩
  · rw [hlead, hrelative, List.filterMap_append, hsteps]
    exact ⟨rfl, iff_of_false (by simp [hroot]) Bool.false_ne_true⟩

/-- Paths with the same components start alike and take the same steps, so
they lead to the same directories. -/
theorem steps_eq_of_components_eq {path other : Path} (h : path.components = other.components) :
    path.isAbsolute = other.isAbsolute ∧
      path.pieces.filter isStep = other.pieces.filter isStep := by
  obtain ⟨hsteps, hroot⟩ := components_tell path
  obtain ⟨hothers, hother⟩ := components_tell other
  rw [h] at hsteps hroot
  exact ⟨Bool.eq_iff_iff.2 (hroot.symm.trans hother), hsteps.symm.trans hothers⟩

/-- A path ends with an absolute one only if they have the same components:
the root comes first and nowhere else. -/
theorem components_eq_of_endsWith {path ending : Path} (habsolute : ending.isAbsolute = true)
    (h : path.endsWith ending = true) : path.components = ending.components := by
  obtain ⟨front, hfront⟩ := List.isSuffixOf_iff_suffix.1 h
  have hending : Component.root ∈ ending.components := (components_tell ending).2.2 habsolute
  cases front with
  | nil => exact hfront.symm
  | cons first front =>
      have htail : Component.root ∈ path.components.tail := by
        rw [← hfront]
        exact List.mem_append_right front hending
      have hroot := root_not_mem path.pieces
      obtain ⟨lead, hlead, ⟨-, rfl⟩ | ⟨-, rfl | rfl⟩⟩ := components_eq path <;> rw [hlead] at htail
      · exact absurd htail hroot
      · exact absurd (List.mem_of_mem_tail htail) hroot
      · exact absurd htail hroot

/-- The last piece is the file name if it is a name. Behind a slash at the end
of the path stands an empty piece, which is none. -/
theorem fileName?_of_pieces {path : Path} {directory : List (List UInt8)} {piece : List UInt8}
    {name : RawText} (h : path.pieces = directory ++ [piece])
    (hname : Component.ofPiece? piece = some (.name name)) : path.fileName? = some name := by
  obtain ⟨lead, hlead, -⟩ := components_eq path
  have hlast : path.components.getLast? = some (.name name) := by
    rw [hlead, h, List.filterMap_append, List.filterMap_cons_some hname, List.filterMap_nil,
      ← List.append_assoc, List.getLast?_concat]
  rw [fileName?, hlast]

theorem extension?_of_no_dot {path : Path} {name : RawText} (h : path.fileName? = some name)
    (hdot : dot ∉ name.toList) : path.extension? = none := by
  simp [extension?, h, Text.splitAt_of_not_mem hdot]

/-- The extension stands behind the last dot, unless the name begins with this
dot. A name that ends in a dot has an empty extension. -/
theorem extension?_of_dot {path : Path} {name : RawText} {stem ending : List UInt8}
    (h : path.fileName? = some name) (hname : name.toList = stem ++ dot :: ending)
    (hending : dot ∉ ending) :
    path.extension? = if stem = [] then none else some (.ofList ending) := by
  have hpieces : (Text.splitAt dot name.toList).reverse =
      ending :: (Text.splitAt dot stem).reverse := by
    rw [hname, Text.splitAt_append_cons, Text.splitAt_of_not_mem hending, List.reverse_append,
      List.reverse_singleton, List.singleton_append]
  by_cases hstem : stem = []
  · rw [hstem] at hpieces
    simp [extension?, h, hpieces, Text.splitAt, hstem]
  · obtain ⟨piece, pieces, hsplit⟩ := Text.exists_splitAt dot stem
    cases pieces with
    | nil =>
        rcases Text.splitAt_eq_cons hsplit with ⟨rfl, -⟩ | ⟨rest, -, hrest⟩
        · simp [extension?, h, hpieces, hsplit, hstem]
        · exact absurd hrest (Text.splitAt_ne_nil dot rest)
    | cons second pieces =>
        have hmore : ∃ a b others, pieces.reverse ++ [second, piece] = a :: b :: others := by
          cases pieces.reverse with
          | nil => exact ⟨second, piece, [], rfl⟩
          | cons a rest => cases rest <;> exact ⟨_, _, _, rfl⟩
        obtain ⟨a, b, others, hmore⟩ := hmore
        simp [extension?, h, hpieces, hsplit, hstem, hmore]

theorem exists_last_dot {text : List UInt8} (h : dot ∈ text) :
    ∃ stem ending, text = stem ++ dot :: ending ∧ dot ∉ ending := by
  obtain ⟨front, rest, hsplit, hfront⟩ := List.eq_append_cons_of_mem (List.mem_reverse.2 h)
  refine ⟨rest.reverse, front.reverse, ?_, by simpa using hfront⟩
  rw [← List.reverse_reverse text, hsplit]
  simp

/-- A text that a relative path can follow: a slash is put behind it, unless
it is empty or ends in one. -/
def withSlash (text : List UInt8) : List UInt8 :=
  if text = [] ∨ text.getLast? = some slash then text else text ++ [slash]

theorem withSlash_withSlash (text : List UInt8) : withSlash (withSlash text) = withSlash text := by
  by_cases h : text = [] ∨ text.getLast? = some slash
  · simp [withSlash, h]
  · simp [withSlash, h]

/-- How a text ends is decided by its last part, if that is not empty. So no
slash is put twice where paths are joined twice. -/
theorem withSlash_append (front rest : List UInt8) :
    withSlash (withSlash front ++ rest) = withSlash front ++ withSlash rest := by
  by_cases hrest : rest = []
  · rw [hrest, List.append_nil, withSlash_withSlash]
    simp [withSlash]
  · have hlast : (withSlash front ++ rest).getLast? = rest.getLast? := by
      rw [List.getLast?_append, Option.or_of_isSome (List.getLast?_isSome.2 hrest)]
    rw [withSlash, hlast]
    by_cases hslash : rest.getLast? = some slash
    · simp [withSlash, hslash]
    · simp [withSlash, hslash, hrest]

theorem join_of_isAbsolute {path : Path} (h : path.isAbsolute = true) (base : Path) :
    base.join path = path := by
  rw [join, if_pos h]

theorem toList_join {path : Path} (h : path.isAbsolute = false) (base : Path) :
    (base.join path).raw.toList = withSlash base.raw.toList ++ path.raw.toList := by
  rw [join, if_neg (by simp [h]), withSlash]
  by_cases hslash : base.raw.toList = [] ∨ base.raw.toList.getLast? = some slash
  · have htest : (base.raw.isEmpty || base.raw.toList.getLast? == some slash) = true := by
      simpa [RawText.toList_eq_nil_iff] using hslash
    rw [if_pos htest, if_pos hslash, RawText.toList_append]
  · have htest : ¬(base.raw.isEmpty || base.raw.toList.getLast? == some slash) = true := by
      simpa [RawText.toList_eq_nil_iff] using hslash
    rw [if_neg htest, if_neg hslash, RawText.toList_append, RawText.toList_append]
    rfl

theorem isAbsolute_join (base path : Path) :
    (base.join path).isAbsolute = (path.isAbsolute || base.isAbsolute) := by
  cases hpath : path.isAbsolute with
  | true => rw [join_of_isAbsolute hpath, hpath, Bool.true_or]
  | false =>
      rw [isAbsolute, toList_join hpath, Bool.false_or]
      cases hbase : base.raw.toList with
      | nil => simpa [withSlash, isAbsolute, hbase] using hpath
      | cons c rest =>
          have hhead : ∃ more, withSlash (c :: rest) = c :: more := by
            unfold withSlash
            split
            · exact ⟨rest, rfl⟩
            · exact ⟨rest ++ [slash], rfl⟩
          obtain ⟨more, hmore⟩ := hhead
          simp [isAbsolute, hbase, hmore]

/-- Joining is associative: an absolute path replaces all that stands in front
of it, and between relative paths the same slashes are put. This holds of the
texts, not only of what they lead to. -/
theorem join_assoc (start base path : Path) :
    (start.join base).join path = start.join (base.join path) := by
  cases hpath : path.isAbsolute with
  | true => rw [join_of_isAbsolute hpath, join_of_isAbsolute hpath, join_of_isAbsolute hpath]
  | false =>
      have hinner : (base.join path).isAbsolute = base.isAbsolute := by
        rw [isAbsolute_join, hpath, Bool.false_or]
      cases hbase : base.isAbsolute with
      | true => rw [join_of_isAbsolute hbase, join_of_isAbsolute (hinner.trans hbase)]
      | false =>
          have htext : ((start.join base).join path).raw.toList =
              (start.join (base.join path)).raw.toList := by
            rw [toList_join hpath, toList_join hbase, withSlash_append,
              toList_join (hinner.trans hbase), toList_join hpath, List.append_assoc]
          exact congrArg Path.ofRaw (RawText.toList_inj.1 htext)

theorem rebase_eq_join (base path : Path) : base.rebase path = base.join path := by
  unfold rebase
  split
  · next h => exact (join_of_isAbsolute h base).symm
  · rfl

end SymbolPatterns.Path
