import SymbolPatterns.Proofs.Outcome
import SymbolPatterns.Proofs.Symbol.Alternation

/-!
Alternations read back. A backslash makes the character behind it stand for
itself, so the alternatives lie between the bars that no backslash escapes. Read
in this way an alternation gives back its names in their order, whatever
characters they are made of, and of the names with which a text begins the
longest is tried first.
-/

namespace SymbolPatterns.Symbol

/-- Cuts a regular expression at the bars that no backslash escapes. It is
written apart from what makes alternations, so it can disagree with it. -/
def splitBars : List Char → List (List Char)
  | [] => [[]]
  | '\\' :: c :: rest => (splitBars rest).modifyHead (['\\', c] ++ ·)
  | '|' :: rest => [] :: splitBars rest
  | c :: rest => (splitBars rest).modifyHead (c :: ·)

def unescape : List Char → List Char
  | [] => []
  | '\\' :: c :: rest => c :: unescape rest
  | c :: rest => c :: unescape rest

/-- The text for which an alternative stands: the alternative without its
backslashes. -/
def literal (item : String) : String := String.ofList (unescape item.toList)

/-- The texts for which the alternatives of a regular expression stand, in the
order in which they are tried. -/
def literals (regex : String) : List String :=
  (splitBars regex.toList).map fun piece => String.ofList (unescape piece)

/-- The first alternative with which a text begins. The placeholder matches
nothing. Engines that try alternatives from left to right find this one. -/
def firstMatch (regex text : String) : Option String :=
  if regex = neverMatch then none
  else (literals regex).find? fun literal => literal.toList.isPrefixOf text.toList

/-- The longest of the names with which a text begins. There is at most one,
as two of a length are the same. -/
structure IsLongest (names : List String) (text name : String) : Prop where
  mem : name ∈ names
  begins : name.toList <+: text.toList
  longest : ∀ other ∈ names, other.toList <+: text.toList →
    other.utf8ByteSize ≤ name.utf8ByteSize

private theorem escapeChar_cases (c : Char) :
    escapeChar c = ['\\', c] ∨ escapeChar c = [c] ∧ c ≠ '\\' ∧ c ≠ '|' := by
  unfold escapeChar
  split
  · exact .inl rfl
  · next h =>
    refine .inr ⟨rfl, ?_, ?_⟩
    · rintro rfl
      exact h (by decide)
    · rintro rfl
      exact h (by decide)

private theorem splitBars_plain {c : Char} (rest : List Char) (hslash : c ≠ '\\')
    (hbar : c ≠ '|') : splitBars (c :: rest) = (splitBars rest).modifyHead (c :: ·) := by
  conv_lhs => unfold splitBars
  split <;> simp_all

private theorem unescape_plain {c : Char} (rest : List Char) (hslash : c ≠ '\\') :
    unescape (c :: rest) = c :: unescape rest := by
  conv_lhs => unfold unescape
  split <;> simp_all

/-- Escaping brings no bar that would be cut at, whatever the name holds. -/
theorem splitBars_escaped (name rest : List Char) :
    splitBars (name.flatMap escapeChar ++ rest) =
      (splitBars rest).modifyHead (name.flatMap escapeChar ++ ·) := by
  induction name with
  | nil =>
      rw [List.flatMap_nil, List.nil_append]
      exact (congrFun List.modifyHead_id _).symm
  | cons c name ih =>
      rcases escapeChar_cases c with hc | ⟨hc, hslash, hbar⟩
      · rw [List.flatMap_cons, hc]
        change (splitBars (name.flatMap escapeChar ++ rest)).modifyHead _ = _
        rw [ih, List.modifyHead_modifyHead]
        rfl
      · rw [List.flatMap_cons, hc]
        change splitBars (c :: (name.flatMap escapeChar ++ rest)) = _
        rw [splitBars_plain _ hslash hbar, ih, List.modifyHead_modifyHead]
        rfl

theorem unescape_escaped (name : List Char) : unescape (name.flatMap escapeChar) = name := by
  induction name with
  | nil => rfl
  | cons c name ih =>
      rcases escapeChar_cases c with hc | ⟨hc, hslash, -⟩
      · rw [List.flatMap_cons, hc]
        exact congrArg (List.cons c) ih
      · rw [List.flatMap_cons, hc, List.singleton_append, unescape_plain _ hslash, ih]

@[simp] theorem literal_escape (name : String) : literal (escape name) = name := by
  simp [literal, escape, unescape_escaped]

/-- Whether a text is an alternative for some name. -/
def IsAlternative (item : String) : Prop := ∃ name, escape name = item

theorem isAlternative_of_mem {names : List String} {item : String}
    (h : item ∈ alternatives names) : IsAlternative item := by
  obtain ⟨name, -, rfl⟩ := mem_alternatives.1 h
  exact ⟨name, rfl⟩

theorem splitBars_append {item : String} (h : IsAlternative item) (rest : List Char) :
    splitBars (item.toList ++ rest) = (splitBars rest).modifyHead (item.toList ++ ·) := by
  obtain ⟨name, rfl⟩ := h
  simpa [escape] using splitBars_escaped name.toList rest

/-- A run of alternatives is cut where it was joined and nowhere else. -/
theorem splitBars_joined {run : List String} (hne : run ≠ [])
    (hitems : ∀ item ∈ run, IsAlternative item) :
    splitBars (joined run).toList = run.map String.toList := by
  induction run with
  | nil => exact absurd rfl hne
  | cons item rest ih =>
      obtain ⟨hitem, hrest⟩ := List.forall_mem_cons.1 hitems
      cases rest with
      | nil =>
          have halone := splitBars_append hitem []
          rw [List.append_nil] at halone
          rw [joined_singleton, halone]
          simp [splitBars]
      | cons next rest =>
          have hspelled : (joined (item :: next :: rest)).toList =
              item.toList ++ '|' :: (joined (next :: rest)).toList := by
            have happend := joined_append (List.cons_ne_nil item [])
              (List.cons_ne_nil next rest)
            rw [List.singleton_append, joined_singleton] at happend
            rw [happend]
            simp
          rw [hspelled, splitBars_append hitem, List.map_cons,
            ← ih (List.cons_ne_nil next rest) hrest]
          simp [splitBars]

theorem literals_joined {run : List String} (hne : run ≠ [])
    (hitems : ∀ item ∈ run, IsAlternative item) : literals (joined run) = run.map literal := by
  rw [literals, splitBars_joined hne hitems, List.map_map]
  rfl

/-- The placeholder is not an alternative for its own text, since that text
has brackets in it and would be escaped. -/
theorem joined_ne_neverMatch {run : List String} (hne : run ≠ [])
    (hitems : ∀ item ∈ run, IsAlternative item) : joined run ≠ neverMatch := by
  intro hjoined
  have hsplit := splitBars_joined hne hitems
  have hone : splitBars neverMatch.toList = [neverMatch.toList] := by decide
  rw [hjoined, hone] at hsplit
  obtain ⟨item, rfl, hitem⟩ := List.map_eq_singleton_iff.1 hsplit.symm
  obtain ⟨name, hname⟩ := hitems item List.mem_cons_self
  rw [String.toList_inj] at hitem
  have hliteral : name = literal neverMatch := by rw [← hitem, ← hname, literal_escape]
  rw [hliteral, hitem] at hname
  revert hname
  decide

theorem firstMatch_joined {run : List String} (hne : run ≠ [])
    (hitems : ∀ item ∈ run, IsAlternative item) (text : String) :
    firstMatch (joined run) text =
      (run.map literal).find? fun literal => literal.toList.isPrefixOf text.toList := by
  rw [firstMatch, if_neg (joined_ne_neverMatch hne hitems), literals_joined hne hitems]

theorem map_literal_alternatives (names : List String) :
    (alternatives names).map literal = arranged longerFirst names := by
  rw [alternatives, List.map_map]
  exact (List.map_congr_left fun name _ => literal_escape name).trans (List.map_id' _)

/-- An alternation gives back its names, once each and longer ones first. The
names may be any texts, the empty one among them. -/
theorem literals_alternation {names : List String} (h : names ≠ []) :
    literals (alternation names) = arranged longerFirst names := by
  rw [alternation_of_ne_nil h, literals_joined (mt alternatives_eq_nil_iff.1 h)
    fun _ => isAlternative_of_mem, map_literal_alternatives]

theorem alternation_ne_neverMatch {names : List String} (h : names ≠ []) :
    alternation names ≠ neverMatch := by
  rw [alternation_of_ne_nil h]
  exact joined_ne_neverMatch (mt alternatives_eq_nil_iff.1 h) fun _ => isAlternative_of_mem

theorem arranged_congr {names others : List String} (h : ∀ name, name ∈ names ↔ name ∈ others) :
    arranged longerFirst names = arranged longerFirst others := by
  have hordered := pairwise_arranged_longerFirst names
  have hordered' := pairwise_arranged_longerFirst others
  have hperm : (arranged longerFirst names).Perm (arranged longerFirst others) := by
    rw [List.perm_ext_iff_of_nodup (nodup_of_pairwise_longerFirst hordered)
      (nodup_of_pairwise_longerFirst hordered')]
    simpa only [mem_arranged] using h
  refine hperm.eq_of_pairwise (fun a b _ _ hab hba => ?_) hordered hordered'
  have hself := longerFirst_trans a b a hab hba
  rw [longerFirst_irrefl] at hself
  cases hself

theorem alternation_eq_iff {names others : List String} :
    alternation names = alternation others ↔ ∀ name, name ∈ names ↔ name ∈ others := by
  constructor
  · intro h
    by_cases hnames : names = []
    · by_cases hothers : others = []
      · simp [hnames, hothers]
      · exact absurd (h ▸ hnames ▸ rfl) (alternation_ne_neverMatch hothers)
    · by_cases hothers : others = []
      · exact absurd (h.trans (hothers ▸ rfl)) (alternation_ne_neverMatch hnames)
      · intro name
        rw [← mem_arranged longerFirst, ← literals_alternation hnames, h,
          literals_alternation hothers, mem_arranged]
  · intro h
    have hitems : alternatives names = alternatives others := by
      rw [alternatives, alternatives, arranged_congr h]
    rw [alternation, alternation, hitems]

/-- Beginnings of one text that are equally long are the same. -/
private theorem eq_of_begins {first second : String} {text : List Char}
    (hfirst : first.toList <+: text) (hsecond : second.toList <+: text)
    (hsize : first.utf8ByteSize = second.utf8ByteSize) : first = second := by
  have hgrown : ∀ short long : String, short.toList <+: long.toList →
      short.utf8ByteSize = long.utf8ByteSize → short = long := by
    rintro short long ⟨more, hmore⟩ hsame
    have hlong : long = short ++ String.ofList more := by
      rw [← String.toList_inj, String.toList_append, String.toList_ofList, hmore]
    rw [hlong, String.utf8ByteSize_append] at hsame
    have hnone : String.ofList more = "" := String.utf8ByteSize_eq_zero_iff.1 (by omega)
    rw [hlong, hnone, String.append_empty]
  rcases List.prefix_or_prefix_of_prefix hfirst hsecond with h | h
  · exact hgrown first second h hsize
  · exact (hgrown second first h hsize.symm).symm

/-- In the order of alternatives the first name with which a text begins is
the longest one. This is what the order is for. -/
theorem find?_arranged_eq_some_iff {names : List String} {text name : String} :
    (arranged longerFirst names).find? (fun other => other.toList.isPrefixOf text.toList) =
      some name ↔ IsLongest names text name := by
  have hfirst : ∀ {found}, (arranged longerFirst names).find?
      (fun other => other.toList.isPrefixOf text.toList) = some found →
        IsLongest names text found := by
    intro found h
    obtain ⟨hbegins, front, rest, hsplit, hfront⟩ := List.find?_eq_some_iff_append.1 h
    have hordered := pairwise_arranged_longerFirst names
    rw [hsplit] at hordered
    have hbehind := (List.pairwise_cons.1 (List.pairwise_append.1 hordered).2.1).1
    have hmem : ∀ other, other ∈ names ↔ other ∈ front ++ found :: rest := by
      intro other
      rw [← hsplit, mem_arranged]
    refine ⟨(hmem found).2 (by simp), List.isPrefixOf_iff_prefix.1 hbegins, ?_⟩
    intro other hother hprefix
    rcases List.mem_append.1 ((hmem other).1 hother) with hahead | hrest
    · have hnot := hfront other hahead
      rw [List.isPrefixOf_iff_prefix.2 hprefix] at hnot
      cases hnot
    · rcases List.mem_cons.1 hrest with rfl | hrest
      · exact Nat.le_refl _
      · have hlonger := hbehind other hrest
        simp only [longerFirst, Bool.or_eq_true, Bool.and_eq_true, decide_eq_true_eq] at hlonger
        omega
  refine ⟨hfirst, fun h => ?_⟩
  have hsome : ((arranged longerFirst names).find? fun other =>
      other.toList.isPrefixOf text.toList).isSome := by
    rw [List.find?_isSome]
    exact ⟨name, (mem_arranged longerFirst).2 h.mem, List.isPrefixOf_iff_prefix.2 h.begins⟩
  obtain ⟨found, hfound⟩ := Option.isSome_iff_exists.1 hsome
  have hlongest := hfirst hfound
  have hsize : found.utf8ByteSize = name.utf8ByteSize :=
    Nat.le_antisymm (h.longest found hlongest.mem hlongest.begins)
      (hlongest.longest name h.mem h.begins)
  rw [hfound, eq_of_begins hlongest.begins h.begins hsize]

theorem firstMatch_alternation_eq_some_iff {names : List String} {text name : String} :
    firstMatch (alternation names) text = some name ↔ IsLongest names text name := by
  by_cases hne : names = []
  · subst hne
    have hnone : firstMatch (alternation []) text = none := if_pos rfl
    rw [hnone]
    exact ⟨nofun, fun h => nomatch h.mem⟩
  · rw [alternation_of_ne_nil hne, firstMatch_joined (mt alternatives_eq_nil_iff.1 hne)
      fun _ => isAlternative_of_mem, map_literal_alternatives, find?_arranged_eq_some_iff]

/-- Chunks tried one after another are tried as the alternatives in them, so
cutting does not change which one matches. -/
theorem findSome?_joined {runs : List (List String)} (hne : ∀ run ∈ runs, run ≠ [])
    (hitems : ∀ item ∈ runs.flatten, IsAlternative item) (text : String) :
    (runs.map joined).findSome? (firstMatch · text) =
      (runs.flatten.map literal).find? fun literal => literal.toList.isPrefixOf text.toList := by
  induction runs with
  | nil => rfl
  | cons run rest ih =>
      rw [List.flatten_cons, List.forall_mem_append] at hitems
      obtain ⟨hrun, hrest⟩ := List.forall_mem_cons.1 hne
      rw [List.map_cons, List.findSome?_cons, firstMatch_joined hrun hitems.1,
        ih hrest hitems.2, List.flatten_cons, List.map_append, List.find?_append]
      cases (run.map literal).find? _ <;> rfl

theorem findSome?_chunks_eq_some_iff {limit : Nat} {names chunks : List String}
    (hnames : ∀ name ∈ names, name ≠ "") (h : Symbol.chunks limit names = .ok chunks)
    {text name : String} :
    chunks.findSome? (firstMatch · text) = some name ↔ IsLongest names text name := by
  by_cases hne : names = []
  · subst hne
    obtain rfl := Except.ok.inj h
    exact ⟨nofun, fun h => nomatch h.mem⟩
  · obtain ⟨-, rfl⟩ := (chunks_eq_ok_iff hne hnames).1 h
    have hwhole := flatten_runsOf limit (alternatives names)
    have hitems : ∀ item ∈ (runsOf limit (alternatives names)).flatten, IsAlternative item := by
      rw [hwhole]
      exact fun _ => isAlternative_of_mem
    rw [findSome?_joined (ne_nil_of_mem_runsOf _ _) hitems, hwhole, map_literal_alternatives,
      find?_arranged_eq_some_iff]

/-- An alternation is determined by the set of its names and determines it. It
can be read back, and the alternative that matches first is the longest that
matches, also when the alternation is cut into chunks. The names are any
texts. What a match is, is told by beginnings of texts; word boundaries and
other parts of a template are not followed here. -/
theorem alternation_faithful (names : List String) :
    (∀ others, alternation names = alternation others ↔ ∀ name, name ∈ names ↔ name ∈ others) ∧
      (names ≠ [] →
        alternation names ≠ neverMatch ∧
        (literals (alternation names)).Pairwise (longerFirst · · = true) ∧
        ∀ name, name ∈ literals (alternation names) ↔ name ∈ names) ∧
      (∀ text name,
        firstMatch (alternation names) text = some name ↔ IsLongest names text name) ∧
      ((∀ name ∈ names, name ≠ "") → ∀ limit chunks, Symbol.chunks limit names = .ok chunks →
        ∀ text name,
          chunks.findSome? (firstMatch · text) = some name ↔ IsLongest names text name) := by
  refine ⟨fun others => alternation_eq_iff, fun hne => ?_,
    fun text name => firstMatch_alternation_eq_some_iff, ?_⟩
  · rw [literals_alternation hne]
    exact ⟨alternation_ne_neverMatch hne, pairwise_arranged_longerFirst names,
      fun name => mem_arranged longerFirst⟩
  · intro hnames limit chunks hchunks text name
    exact findSome?_chunks_eq_some_iff hnames hchunks

/-- Names made of bars and backslashes, and the placeholder as a name: they
are told apart, and the longest with which a text begins is found in the
alternation and in the chunks. -/
theorem specialNames_faithful :
    let names := ["\\", "Get", "(?!)", "Get|App", "Get"]
    alternation names = "Get\\|App|\\(\\?!\\)|Get|\\\\" ∧
      alternation names ≠ neverMatch ∧
      (∀ name, name ∈ literals (alternation names) ↔ name ∈ names) ∧
      IsLongest names "Get|Application" "Get|App" ∧
      Symbol.chunks 11 names = .ok ["Get\\|App", "\\(\\?!\\)|Get", "\\\\"] ∧
      ["Get\\|App", "\\(\\?!\\)|Get", "\\\\"].findSome? (firstMatch · "Getter") = some "Get" := by
  intro names
  have hchunks : Symbol.chunks 11 names =
      .ok ["Get\\|App", "\\(\\?!\\)|Get", "\\\\"] := eq_ok_of_toOption (by decide +kernel)
  have hgetter : IsLongest names "Getter" "Get" :=
    ⟨by decide, by decide +kernel, by decide +kernel⟩
  obtain ⟨-, hread, hfirst, hcut⟩ := alternation_faithful names
  obtain ⟨hnever, -, hmem⟩ := hread (List.cons_ne_nil _ _)
  refine ⟨by decide +kernel, hnever, hmem, ?_, hchunks, ?_⟩
  · exact (hfirst _ _).1 (by decide +kernel)
  · exact (hcut (by decide) 11 _ hchunks _ _).2 hgetter

end SymbolPatterns.Symbol
