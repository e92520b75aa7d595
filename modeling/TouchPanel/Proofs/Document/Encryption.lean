import TouchPanel.Proofs.Document.Named
import TouchPanel.Proofs.Document.Written

/-!
# Encryption of a device's interface

The section `api` of a document has the key of the device below a line `encryption`. A recipe
that has the key, or its placeholder, in another place of that section keeps what it has.
-/

namespace TouchPanel.Document

open Text Recipe

variable {d : Device} {key : Text} {values ls : List Text} {s : Section}

/-! ## Sections with a key -/

/-- The forms in which a key can stand: plain, between quotes, and quoted with escapes. -/
def keyForms (key : Text) : List Text :=
  [key, '"' :: key ++ ['"'], '\'' :: key ++ ['\''], quote key]

/-- A line `key` with one of the values. -/
def isKeyLine (values : List Text) (line : Text) : Bool :=
  values.any fun value => trim line == "key: ".toList ++ value

/-- A line that belongs to what is nested under another line. -/
def isUnder (opening line : Text) : Bool := allBlank line || indentOf opening < indentOf line

/-- Whether a line `key` with one of the values is nested under a line `encryption`. -/
def isEncrypted (values : List Text) : List Text → Bool
  | [] => false
  | line :: r =>
    isEncryptionLine line && (r.takeWhile (isUnder line)).any (isKeyLine values) ||
      isEncrypted values r

theorem isEncrypted_iff : isEncrypted values ls = true ↔
    ∃ a opening b line c, ls = a ++ opening :: (b ++ line :: c) ∧
      isEncryptionLine opening = true ∧ (∀ x ∈ b, isUnder opening x = true) ∧
      isUnder opening line = true ∧ isKeyLine values line = true := by
  induction ls with
  | nil => simp [isEncrypted]
  | cons l r ih =>
    rw [isEncrypted, Bool.or_eq_true, Bool.and_eq_true, List.any_eq_true, ih]
    constructor
    · rintro (⟨hopen, line, hmem, hline⟩ | ⟨a, opening, b, line, c, rfl, h⟩)
      · obtain ⟨b, c, hsplit⟩ := List.append_of_mem hmem
        have hunder : ∀ x ∈ b ++ line :: c, isUnder l x = true := fun x hx =>
          List.mem_takeWhile_imp (hsplit ▸ hx)
        have hrest : r = b ++ line :: (c ++ r.dropWhile (isUnder l)) := by
          conv_lhs => rw [← List.takeWhile_append_dropWhile (p := isUnder l) (l := r), hsplit,
            List.append_assoc, List.cons_append]
        refine ⟨[], l, b, line, c ++ r.dropWhile (isUnder l), congrArg (l :: ·) hrest, hopen,
          fun x hx => ?_, ?_, hline⟩
        · exact hunder x (List.mem_append_left _ hx)
        · exact hunder line (by simp)
      · exact ⟨l :: a, opening, b, line, c, rfl, h⟩
    · rintro ⟨a, opening, b, line, c, heq, hopen, hunder, hline, hkey⟩
      cases a with
      | nil =>
        obtain ⟨rfl, rfl⟩ := List.cons.inj heq
        refine Or.inl ⟨hopen, line, ?_, hkey⟩
        rw [List.takeWhile_append_of_pos hunder, List.takeWhile_cons_of_pos hline]
        simp
      | cons x a =>
        obtain ⟨rfl, rfl⟩ := List.cons.inj heq
        exact Or.inr ⟨a, opening, b, line, c, rfl, hopen, hunder, hline, hkey⟩

theorem isEncrypted_append (h : isEncrypted values ls = true) (a b : List Text) :
    isEncrypted values (a ++ ls ++ b) = true := by
  obtain ⟨a', opening, b', line, c, rfl, hrest⟩ := isEncrypted_iff.1 h
  exact isEncrypted_iff.2 ⟨a ++ a', opening, b', line, c ++ b, by simp, hrest⟩

theorem any_of_isEncrypted (h : isEncrypted values ls = true) :
    ls.any isEncryptionLine = true := by
  obtain ⟨a, opening, b, line, c, rfl, hopen, -⟩ := isEncrypted_iff.1 h
  exact List.any_eq_true.2 ⟨opening, by simp, hopen⟩

/-! ## What does not take the key away -/

theorem not_allBlank_of_isKeyLine {line : Text} (h : isKeyLine values line = true) :
    allBlank line = false := by
  obtain ⟨value, -, htrim⟩ := List.any_eq_true.1 h
  rw [← Bool.not_eq_true]
  intro hblank
  rw [beq_iff_eq, trim, trimStart_of_allBlank hblank] at htrim
  cases htrim

theorem not_allBlank_of_isEncryptionLine {line : Text} (h : isEncryptionLine line = true) :
    allBlank line = false := by
  rw [← Bool.not_eq_true]
  intro hblank
  rw [isEncryptionLine, trimStart_of_allBlank hblank] at h
  cases h

theorem isUnder_trimEnd {opening line : Text} (hline : allBlank line = false) :
    isUnder opening (trimEnd line) = isUnder opening line := by
  obtain ⟨b, -, hsplit⟩ := exists_eq_trimEnd_append line
  have htrim : allBlank (trimEnd line) = false := (endsClean_trimEnd hline).not_allBlank
  have hlead : leadingBlanks line = leadingBlanks (trimEnd line) := by
    conv_lhs => rw [hsplit, leadingBlanks_append htrim]
  rw [isUnder, isUnder, hline, htrim, indentOf, indentOf, indentOf, hlead]

theorem isEncrypted_tidyEnd (h : isEncrypted values ls = true) :
    isEncrypted values (tidyEnd ls) = true := by
  obtain ⟨a, opening, b, line, c, rfl, hopen, hunder, hline, hkey⟩ := isEncrypted_iff.1 h
  have hblank := not_allBlank_of_isKeyLine hkey
  have htidy : tidyEnd (a ++ opening :: (b ++ line :: c)) =
      a ++ opening :: (b ++ tidyEnd (line :: c)) := by
    rw [← List.cons_append, ← List.append_assoc, tidyEnd_append _ (by simp [hblank])]
    simp
  rw [isEncrypted_iff, htidy, tidyEnd]
  split
  · rw [if_neg (by simp [hblank])]
    refine ⟨a, opening, b, trimEnd line, [], rfl, hopen, hunder, ?_, ?_⟩
    · rwa [isUnder_trimEnd hblank]
    · rwa [isKeyLine, trim_trimEnd]
  · exact ⟨a, opening, b, line, tidyEnd c, rfl, hopen, hunder, hline, hkey⟩

theorem isEncryptionLine_written (d : Device) {l : Text} (h : isEncryptionLine l = true) :
    isEncryptionLine (written d l) = true := by
  obtain ⟨rest, hrest⟩ := startsWith_iff.1 h
  have hblank := not_allBlank_of_isEncryptionLine h
  have hstart : trimStart (substitute d l) = "encryption:".toList ++ substitute d rest := by
    rw [(substitute_line d hblank).2, hrest, substitute_append_left d (by decide)]
  have hblank' : allBlank (substitute d l) = false := (allBlank_substitute d l).trans hblank
  obtain ⟨b, hb, hreturns⟩ := trimStart_bare hblank'
  have hpre : "encryption:".toList <+: trimStart (written d l) ++ b := by
    rw [written, ← hreturns, hstart]
    exact List.prefix_append _ _
  -- a carriage return is no character of the word
  have hword : "encryption:".toList <+: trimStart (written d l) := by
    cases b with
    | nil => rwa [List.append_nil] at hpre
    | cons c b =>
      obtain rfl := hb c List.mem_cons_self
      exact (prefix_append_cons_iff (by decide)).1 hpre
  exact startsWith_iff_isPrefix.2 hword

theorem isUnder_written (d : Device) {opening l : Text} (hopening : allBlank opening = false)
    (h : isUnder opening l = true) : isUnder (written d opening) (written d l) = true := by
  unfold isUnder at h ⊢
  rw [allBlank_written]
  cases hl : allBlank l with
  | true => rfl
  | false =>
    rw [hl] at h
    rwa [indentOf_written d hopening, indentOf_written d hl]

theorem not_infix_of_mem_keyForms {word : Text} (hword : IsCapital word) (h : ¬ word <:+: key) :
    ∀ form ∈ keyForms key, ¬ word <:+: form := by
  have hquotes : ∀ c, c.isUpper = false → c ≠ '_' → ¬ word <:+: c :: key ++ [c] := by
    intro c hupper hline hin
    have hc : ∀ x ∈ [c], x ∉ word := by
      intro x hx hmem
      obtain rfl := List.mem_singleton.1 hx
      rcases hword.2 x hmem with h | h
      · rw [hupper] at h
        cases h
      · exact hline h
    exact h (infix_of_append_left hword.1 hc (infix_of_infix_append hword.1 hc hin))
  simp only [keyForms, List.forall_mem_cons, List.not_mem_nil, false_imp_iff, implies_true,
    and_true]
  exact ⟨h, hquotes '"' rfl (by decide), hquotes '\'' rfl (by decide), not_infix_quote hword h⟩

/-- The placeholder gives way to the quoted key, and a key stays as it is. -/
theorem isKeyLine_written {key : String} (hkey : d.key? = some key) (hplain : IsPlain key.toList)
    {l : Text} (h : isKeyLine (apiKeyPlaceholder :: keyForms key.toList) l = true) :
    isKeyLine (keyForms key.toList) (written d l) = true := by
  obtain ⟨value, hvalue, htrim⟩ := List.any_eq_true.1 h
  rw [beq_iff_eq] at htrim
  have hwritten : trim (written d l) = trimEnd ("key: ".toList ++ substitute d value) := by
    rw [written, trim_bare, trim_substitute, htrim, substitute_append_left d (by decide)]
  refine List.any_eq_true.2 ?_
  rcases List.mem_cons.1 hvalue with rfl | hvalue
  · have hvalue : substitute d apiKeyPlaceholder = quote key.toList := by
      have hword : replace apiKeyPlaceholder (quote key.toList) (apiKeyPlaceholder ++ []) =
          quote key.toList ++ [] := replace_word_append (by decide) []
      rw [List.append_nil, List.append_nil] at hword
      unfold substitute
      rw [hkey, replace_of_not_infix (by decide)]
      exact hword
    refine ⟨quote key.toList, by simp [keyForms], ?_⟩
    rw [hwritten, hvalue, ((Node.endsClean_quote _).append _).trimEnd_eq, beq_self_eq_true]
  · have hsame : substitute d value = value := by
      unfold substitute
      rw [hkey,
        replace_of_not_infix (not_infix_of_mem_keyForms (by decide) hplain.1 value hvalue)]
      exact replace_of_not_infix (not_infix_of_mem_keyForms (by decide) hplain.2 value hvalue)
    refine ⟨value, hvalue, ?_⟩
    rw [hwritten, hsame, ← htrim, trim, trimEnd_trimEnd, beq_self_eq_true]

theorem isEncrypted_written {key : String} (hkey : d.key? = some key)
    (hplain : IsPlain key.toList)
    (h : isEncrypted (apiKeyPlaceholder :: keyForms key.toList) ls = true) :
    isEncrypted (keyForms key.toList) (ls.map (written d)) = true := by
  obtain ⟨a, opening, b, line, c, rfl, hopen, hunder, hline, hvalue⟩ := isEncrypted_iff.1 h
  have hblank := not_allBlank_of_isEncryptionLine hopen
  refine isEncrypted_iff.2 ⟨a.map (written d), written d opening, b.map (written d),
    written d line, c.map (written d), by simp, isEncryptionLine_written d hopen, ?_,
    isUnder_written d hblank hline, isKeyLine_written hkey hplain hvalue⟩
  rw [List.forall_mem_map]
  exact fun x hx => isUnder_written d hblank (hunder x hx)

/-! ## The section -/

theorem indentOf_spaces_append (n : Nat) {c : Char} (hc : isBlank c = false) (t : Text) :
    indentOf (spaces n ++ c :: t) = n := by
  rw [indentOf, leadingBlanks_blank_append (allBlank_spaces n) fun x hx => by cases hx; exact hc]
  induction n with
  | zero => rfl
  | succ n ih =>
    have hsize : byteSize (spaces (n + 1)) = ' '.utf8Size + byteSize (spaces n) := rfl
    have hone : ' '.utf8Size = 1 := rfl
    rw [hsize, ih, hone, Nat.add_comm]

theorem isUnder_quotedLine {opening : Text} {n : Nat} (h : indentOf opening < n) (key : Text) :
    isUnder opening (quotedLine n "key".toList key) = true := by
  have hindent : indentOf (quotedLine n "key".toList key) = n := by
    unfold quotedLine
    rw [List.append_assoc, List.append_assoc]
    exact indentOf_spaces_append n (by decide) _
  rw [isUnder, hindent, Bool.or_eq_true, decide_eq_true_eq]
  exact Or.inr h

theorem isKeyLine_quotedLine (n : Nat) (key : Text) :
    isKeyLine (keyForms key) (quotedLine n "key".toList key) = true := by
  have htrim : trim (quotedLine n "key".toList key) = "key: ".toList ++ quote key := by
    unfold quotedLine
    rw [List.append_assoc, List.append_assoc, trim,
      trimStart_blank_append (allBlank_spaces n) fun c hc => by cases hc; rfl]
    exact (((Node.endsClean_quote key).append ": ".toList).append "key".toList).trimEnd_eq
  refine List.any_eq_true.2 ⟨quote key, by simp [keyForms], ?_⟩
  rw [htrim, beq_self_eq_true]

/-- A key that is put in stands under a line `encryption`, an old one or a new one. -/
theorem isEncrypted_encryptedLines (key : Text) (s : Section) :
    isEncrypted (keyForms key) (encryptedLines key s) = true := by
  have hline := fun n => isKeyLine_quotedLine n key
  rw [isEncrypted_iff]
  unfold encryptedLines
  dsimp only
  generalize s.lines.drop 1 = r
  cases hopening : r.dropWhile (!isEncryptionLine ·) with
  | nil =>
    refine ⟨[], _, [], _, r, rfl, ?_, by simp, isUnder_quotedLine ?_ key, hline _⟩
    · rw [isEncryptionLine,
        trimStart_blank_append (allBlank_spaces _) fun c hc => by cases hc; rfl]
      rfl
    · have hindent : indentOf (spaces s.childIndent ++ "encryption:".toList) = s.childIndent :=
        indentOf_spaces_append _ (by decide) _
      omega
  | cons opening after =>
    have hopen : isEncryptionLine opening = true := by
      have hhead := List.head?_dropWhile_not (!isEncryptionLine ·) r
      rw [hopening] at hhead
      simpa using hhead
    dsimp only
    split
    · next inner hinner =>
      obtain ⟨b, x, c, hsplit, -, hx, rfl⟩ := exists_of_updateFirst? hinner
      have hunder : ∀ y ∈ b ++ x :: c, isUnder opening y = true := fun y hy =>
        List.mem_takeWhile_imp (p := isUnder opening) (hsplit ▸ hy)
      have hblank : allBlank x = false := by
        rw [← Bool.not_eq_true]
        intro hblank
        unfold valueOf? at hx
        rw [trimStart_of_allBlank hblank] at hx
        simp [after?] at hx
      have hdeep : indentOf opening < indentOf x := by
        have hx' := hunder x (by simp)
        rw [isUnder, hblank] at hx'
        simpa using hx'
      refine ⟨r.takeWhile (!isEncryptionLine ·), opening, b, _,
        c ++ after.dropWhile (isUnder opening), ?_, hopen,
        fun y hy => hunder y (List.mem_append_left _ hy),
        isUnder_quotedLine hdeep key, hline _⟩
      rw [List.append_assoc, List.cons_append]
      rfl
    · exact ⟨_, opening, [], _, after, rfl, hopen, by simp, isUnder_quotedLine (by omega) key,
        hline _⟩

/-- A section of a recipe that shows the key where it belongs, or that shows neither the key
nor its placeholder and can take a key: below its own line `encryption`, or below one at the
indentation of its other lines. -/
def TakesKey (key : Text) (s : Section) : Prop :=
  isEncrypted (apiKeyPlaceholder :: keyForms key) s.lines = true ∨
    occurs key s.text = false ∧ occurs apiKeyPlaceholder s.text = false ∧
      (s.lines.any isEncryptionLine = true ∨ 0 < s.childIndent)

instance (key : Text) (s : Section) : Decidable (TakesKey key s) :=
  inferInstanceAs (Decidable (_ ∨ _))

theorem isEncryptionLine_of_key {l : Text} (h : topLevelKey? l = some "api".toList) :
    isEncryptionLine l = false := by
  obtain ⟨rest, rfl⟩ := prefix_of_topLevelKey? h
  rfl

/-- The section `api` of a device with a key. -/
theorem exists_writes_encrypted {key : Text} {found : Option Section}
    (hpart : ∀ s ∈ found, IsPart s ∧ s.key = some "api".toList)
    (h : ∀ s ∈ found, TakesKey key s) :
    ∃ s : Section, s.key = some "api".toList ∧ Writes (apiSection (some key) found) s ∧
      isEncrypted (apiKeyPlaceholder :: keyForms key) s.lines = true := by
  have hforms : ∀ {ls : List Text}, isEncrypted (keyForms key) ls = true →
      isEncrypted (apiKeyPlaceholder :: keyForms key) ls = true := by
    intro ls h
    obtain ⟨a, opening, b, line, c, rfl, hopen, hunder, hline, hkey⟩ := isEncrypted_iff.1 h
    exact isEncrypted_iff.2 ⟨a, opening, b, line, c, rfl, hopen, hunder, hline,
      Bool.or_eq_true_iff.2 (Or.inr hkey)⟩
  have hapi : topLevelKey? "api:".toList = some "api".toList := by decide
  unfold apiSection
  cases found with
  | none =>
    have hbody : ∀ x ∈ ["  encryption:".toList, quotedLine 4 "key".toList key], IsBody x :=
      List.forall_mem_cons.2 ⟨⟨by decide, by decide⟩, List.forall_mem_singleton.2
        (isBody_quotedLine (by decide) (by decide) key)⟩
    have hall : ∀ x ∈ ["api:".toList, "  encryption:".toList, quotedLine 4 "key".toList key],
        '\n' ∉ x := List.forall_mem_cons.2 ⟨by decide, fun x hx => (hbody x hx).2⟩
    refine ⟨⟨some "api".toList, _⟩, rfl, ⟨⟨_, _, _, rfl, rfl, hapi, fun x hx => (hbody x hx).1⟩,
      hall, trimEnd_joinLines _⟩, hforms (isEncrypted_iff.2 ?_)⟩
    exact ⟨["api:".toList], "  encryption:".toList, [], _, [], rfl, by decide, by simp,
      isUnder_quotedLine (by decide) key, isKeyLine_quotedLine 4 key⟩
  | some s =>
    obtain ⟨hs, hkey⟩ := hpart s rfl
    obtain ⟨l, r, hkeyed⟩ := hs.keyed _ hkey
    dsimp only
    split
    · next hshown =>
      have hencrypted := (h s rfl).resolve_right fun hnot => by
        rw [hnot.1, hnot.2.1] at hshown
        cases hshown
      exact ⟨s, hkey, writes_text hkeyed hs.free, hencrypted⟩
    · have hdrop : s.lines.drop 1 = r := by rw [hkeyed.lines_eq]; rfl
      have hany : s.lines.any isEncryptionLine = r.any isEncryptionLine := by
        rw [hkeyed.lines_eq, List.any_cons, isEncryptionLine_of_key hkeyed.head, Bool.false_or]
      have hindent : (s.lines.drop 1).any isEncryptionLine = true ∨ 0 < s.childIndent := by
        rw [hdrop, ← hany]
        exact (h s rfl).elim (fun h => Or.inl (any_of_isEncrypted h)) (·.2.2)
      have hbody : ∀ x ∈ encryptedLines key s, IsBody x := by
        refine isBody_encryptedLines (fun x hx => ?_) hindent key
        rw [hdrop] at hx
        exact ⟨hkeyed.tail x hx, hs.free x (hkeyed.lines_eq ▸ List.mem_cons_of_mem l hx)⟩
      have hall : ∀ x ∈ "api:".toList :: encryptedLines key s, '\n' ∉ x :=
        List.forall_mem_cons.2 ⟨by decide, fun x hx => (hbody x hx).2⟩
      refine ⟨{ s with lines := "api:".toList :: encryptedLines key s }, hkey,
        writes_text ⟨hkey, rfl, hapi, fun x hx => (hbody x hx).1⟩ hall, hforms ?_⟩
      have happend := isEncrypted_append (isEncrypted_encryptedLines key s) ["api:".toList] []
      rwa [List.append_nil] at happend

/-! ## What stands in front of the section -/

/-- A line that opens no section but `esphome`, or one of a name that stands at the margin. -/
def IsEsphomeLine (l : Text) : Prop :=
  '\n' ∉ l ∧ ∀ key ∈ topLevelKey? l, key = "esphome".toList ∨ key = "name".toList

theorem IsBody.isEsphomeLine {l : Text} (h : IsBody l) : IsEsphomeLine l := by
  refine ⟨h.2, fun key hkey => ?_⟩
  rw [isInner_iff.1 h.1] at hkey
  cases hkey

theorem isEsphomeLine_key : IsEsphomeLine "esphome:".toList := by
  have hkey : topLevelKey? "esphome:".toList = some "esphome".toList := by decide
  refine ⟨by decide, fun key h => ?_⟩
  rw [hkey] at h
  exact Or.inl (Option.some.inj h).symm

theorem isEsphomeLine_quotedLine (n : Nat) (name : Text) :
    IsEsphomeLine (quotedLine n "name".toList name) := by
  cases n with
  | zero =>
    have hname : topLevelKey? (quotedLine 0 "name".toList name) = some "name".toList :=
      topLevelKey?_key_colon (by decide : "name".toList.all isKeyChar = true)
        (by decide : "name".toList.head?.any isKeyStart = true) rfl
    refine ⟨newline_not_mem_quotedLine 0 (by decide) name, fun key hkey => ?_⟩
    rw [hname] at hkey
    exact Or.inr (Option.some.inj hkey).symm
  | succ n => exact (isBody_quotedLine (Nat.succ_pos n) (by decide) name).isEsphomeLine

theorem isEsphomeLine_namedLines (name : Text) (namedElsewhere : Bool)
    (h : ∀ x ∈ s.lines.drop 1, IsBody x) :
    ∀ x ∈ namedLines name namedElsewhere s, IsEsphomeLine x := by
  unfold namedLines
  dsimp only
  split
  · next hupdate =>
    intro x hx
    rcases mem_of_updateFirst? hupdate hx with hx | ⟨y, hy, hname, rfl⟩
    · exact (h x hx).isEsphomeLine
    · exact (isBody_nameLine (h y hy) (Bool.and_eq_true_iff.1 hname).1).isEsphomeLine
  · split
    · exact fun x hx => (h x hx).isEsphomeLine
    · exact List.forall_mem_cons.2
        ⟨isEsphomeLine_quotedLine _ name, fun x hx => (h x hx).isEsphomeLine⟩

theorem exists_lines_esphomeSection (name recipe : Text) {found : Option Section}
    (hpart : ∀ s ∈ found, IsPart s ∧ s.key = some "esphome".toList) :
    ∃ ls : List Text, trimEnd (esphomeSection name recipe found) = trimEnd (joinLines ls) ∧
      ∀ x ∈ ls, IsEsphomeLine x := by
  unfold esphomeSection
  cases found with
  | none =>
    exact ⟨_, rfl, List.forall_mem_cons.2 ⟨isEsphomeLine_key,
      List.forall_mem_singleton.2 (isEsphomeLine_quotedLine 2 name)⟩⟩
  | some s =>
    obtain ⟨hs, hname⟩ := hpart s rfl
    obtain ⟨l, r, hkeyed⟩ := hs.keyed _ hname
    have hdrop : s.lines.drop 1 = r := by rw [hkeyed.lines_eq]; rfl
    have hbody : ∀ x ∈ s.lines.drop 1, IsBody x := fun x hx =>
      ⟨hkeyed.tail x (hdrop ▸ hx), hs.free x (List.mem_of_mem_drop hx)⟩
    refine ⟨"esphome:".toList :: namedLines name (occurs deviceNamePlaceholder recipe) s, ?_,
      List.forall_mem_cons.2 ⟨isEsphomeLine_key, isEsphomeLine_namedLines name _ hbody⟩⟩
    rw [trimEnd_text, trimEnd_joinLines]

/-- The section `esphome` has no key but its own and a name at the margin. -/
theorem topLevelKey?_esphomeSection (name recipe : Text) {found : Option Section}
    (hpart : ∀ s ∈ found, IsPart s ∧ s.key = some "esphome".toList) {l : Text}
    (hl : l ∈ (trimEnd (esphomeSection name recipe found)).splitOn '\n') :
    ∀ key ∈ topLevelKey? l, key = "esphome".toList ∨ key = "name".toList := by
  obtain ⟨ls, heq, hls⟩ := exists_lines_esphomeSection name recipe hpart
  rw [heq] at hl
  rcases topLevelKey?_of_mem_splitOn (fun x hx => (hls x hx).1) hl with rfl | ⟨y, hy, hsame⟩
  · exact fun _ hkey => nomatch hkey
  · rw [hsame]
    exact (hls y hy).2

/-! ## The document -/

/-- The texts of a document around its section `api`. -/
theorem exists_texts_around (d : Device) (options : Options) (recipe : Text) (ss : List Section)
    (added : List (String × List Node)) :
    ∃ front back, sectionTexts d options recipe ss added =
        front ++ apiSection (d.key?.map String.toList) (takeSection "api" ss).1 :: back ∧
      ∀ u ∈ front, u = header d ∨ (∃ s ∈ others ss, s.key = none ∧ u = preamble s) ∨
        u = esphomeSection d.nodeName.toList recipe (takeSection "esphome" ss).1 := by
  refine ⟨(if options.headerComment then [header d] else []) ++
    ((others ss).filter (·.key.isNone)).map preamble ++
      [esphomeSection d.nodeName.toList recipe (takeSection "esphome" ss).1],
    networkTexts options defaultWifi (takeSection "wifi" ss).1 ++
      (networkTexts options defaultOta (takeSection "ota" ss).1 ++
        (((others ss).filter (·.key.isSome)).map Section.text ++ added.map sectionText)),
    ?_, fun u hu => ?_⟩
  · rw [sectionTexts_eq, List.append_assoc _ [_]]
    rfl
  · rcases List.mem_append.1 hu with hu | hu
    · rcases List.mem_append.1 hu with hu | hu
      · split at hu
        · exact Or.inl (List.mem_singleton.1 hu)
        · cases hu
      · obtain ⟨s, hs, rfl⟩ := List.mem_map.1 hu
        obtain ⟨hmem, hnone⟩ := List.mem_filter.1 hs
        exact Or.inr (Or.inl ⟨s, hmem, Option.isNone_iff_eq_none.1 hnone, rfl⟩)
    · exact Or.inr (Or.inr (List.mem_singleton.1 hu))

/-- No line with the key `api` comes before the section. -/
theorem api_not_mem_keysOf {lead : List Text}
    (h : ∀ l ∈ lead, ∀ key ∈ topLevelKey? l, key = "esphome".toList ∨ key = "name".toList) :
    "api".toList ∉ keysOf (lead.map (written d)) := by
  intro hmem
  obtain ⟨l, hl, hlkey⟩ := mem_keysOf.1 hmem
  obtain ⟨x, hx, rfl⟩ := List.mem_map.1 hl
  rw [topLevelKey?_written d fun key hkey => ?_] at hlkey
  · rcases h x hx _ hlkey with heq | heq <;> exact absurd heq (by decide)
  · rcases h x hx key hkey with rfl | rfl <;> exact isPlain_iff.2 (by decide)

/-- The section `api` of joined sections comes from the one that is taken out. -/
theorem exists_section_api (options : Options) (recipe : Text) {ss : List Section}
    (added : List (String × List Node)) (hs : s.key = some "api".toList)
    (hwrites : Writes (apiSection (d.key?.map String.toList) (takeSection "api" ss).1) s)
    (hesphome : ∀ s ∈ (takeSection "esphome" ss).1, IsPart s)
    (hkeyless : ∀ s ∈ others ss, s.key = none → IsPart s) :
    let document := joinSections d (sectionTexts d options recipe ss added)
    ∃ s' ∈ sectionsNamed "api".toList document, (tidyEnd s.lines).map (written d) <+: s'.lines ∧
      (IsLineText d.deviceId ∧ IsLineText d.slug →
        (sectionsNamed "api".toList document).head? = some s') := by
  intro document
  obtain ⟨front, back, htexts, hfront⟩ := exists_texts_around d options recipe ss added
  have hdocument : document = joinSections d
      (front ++ apiSection (d.key?.map String.toList) (takeSection "api" ss).1 :: back) :=
    congrArg (joinSections d) htexts
  have hapiPlain : IsPlain "api".toList := isPlain_iff.2 (by decide)
  obtain ⟨lead, s', post, more, hkeyed, hs', hlines, hlead⟩ :=
    exists_keyedOf_joinSections d front back hwrites fun key hkey => by
      rw [hs] at hkey
      exact Option.some.inj hkey ▸ hapiPlain
  have hnamed : sectionsNamed "api".toList document =
      named "api".toList (keyedOf (lead.map (written d))) ++ s' :: named "api".toList post := by
    rw [sectionsNamed_eq_bareLines, hdocument, hkeyed, named_append]
    exact congrArg (_ ++ ·) (List.filter_cons_of_pos (by rw [hs', hs, beq_self_eq_true]))
  refine ⟨s', hnamed ▸ List.mem_append_right _ List.mem_cons_self, ⟨more, hlines.symm⟩,
    fun hdevice => ?_⟩
  have hinner : ∀ {l : Text}, isInner l = true →
      ∀ key ∈ topLevelKey? l, key = "esphome".toList ∨ key = "name".toList := by
    intro l hl key hkey
    rw [isInner_iff.1 hl] at hkey
    cases hkey
  have hkeys := api_not_mem_keysOf (d := d) fun l hl => by
    rcases hlead l hl with rfl | ⟨u, hu, hl⟩
    · exact hinner rfl
    · rcases hfront u hu with rfl | ⟨s, hs, hnone, rfl⟩ | rfl
      · exact hinner (isInner_header hdevice l hl)
      · exact hinner (isInner_preamble (hkeyless s hs hnone) hnone l hl)
      · exact topLevelKey?_esphomeSection _ _
          (fun s hs => ⟨hesphome s hs, key_of_mem_takeSection hs⟩) hl
  rw [hnamed, named_eq_nil_iff.2 hkeys]
  rfl

theorem name_mem_of_ofProject (p : Project) (registry : Registry) (options : Options) :
    ∀ s ∈ (Fragments.ofProject p registry options).1.sensors ++
      (Fragments.ofProject p registry options).1.trailing, s.1 ∈ generatedNames := by
  intro s hs
  have hsensors : ((Fragments.ofProject p registry options).1.sensors.map (·.1)).Sublist
      Declarations.sectionNames := by
    rw [Fragments.ofProject_eq]
    exact Declarations.names_sections _
  have hsub := hsensors.append (Fragments.names_trailing (Fragments.ofProject p registry options).1)
  rw [← List.map_append] at hsub
  exact hsub.subset (List.mem_map_of_mem hs)

/-- Entries go to sections of generated names only. -/
theorem filter_merged {t : Text} {f : Fragments}
    (hnames : ∀ s ∈ f.sensors ++ f.trailing, s.1 ∈ generatedNames) {p : Option Text → Bool}
    (hp : ∀ name ∈ generatedNames, p (some name.toList) = false) (ss : List Section) :
    (mergeSections ss ((fill t f).existing ++
      f.trailing.filter fun s => hasSection (fill t f).text s.1.toList)).1.filter
        (fun s => p s.key) = ss.filter fun s => p s.key := by
  refine filter_mergeSections (fun e he => hp e.1 (hnames e ?_)) ss
  refine List.mem_append.2 ((List.mem_append.1 he).imp (fun he => ?_) List.mem_of_mem_filter)
  rw [fill_eq_paged] at he
  exact List.mem_of_mem_filter he

theorem named_merged {t : Text} {f : Fragments}
    (hnames : ∀ s ∈ f.sensors ++ f.trailing, s.1 ∈ generatedNames) (name : String)
    (hname : name ∉ generatedNames) (ss : List Section) :
    named name.toList (mergeSections ss ((fill t f).existing ++
      f.trailing.filter fun s => hasSection (fill t f).text s.1.toList)).1 =
        named name.toList ss := by
  refine filter_merged hnames (p := (· == some name.toList)) (fun other hother => ?_) ss
  rw [beq_eq_false_iff_ne, Ne, Option.some_inj, String.toList_inj]
  rintro rfl
  exact hname hother

theorem takeSection_merged {t : Text} {f : Fragments}
    (hnames : ∀ s ∈ f.sensors ++ f.trailing, s.1 ∈ generatedNames) (name : String)
    (hname : name ∉ generatedNames) (ss : List Section) :
    (takeSection name (mergeSections ss ((fill t f).existing ++
      f.trailing.filter fun s => hasSection (fill t f).text s.1.toList)).1).1 =
        (named name.toList ss).head? := by
  rw [takeSection_fst, named_merged hnames name hname]

/-- The first section of a name in a recipe with the pages and the inbound data put in. -/
def recipeSection? (name : String) (d : Device) (recipe : Text) (registry : Registry)
    (options : Options) : Option Section :=
  let f := (Fragments.ofProject d.project registry options).1
  (named name.toList
    (Section.split (fill (d.project.userText.inject (normalize recipe)) f).text)).head?

/-- What is written for the section `api` of the recipe is the section of the document. -/
theorem exists_section_of_recipe (d : Device) (recipe : Text) (registry : Registry)
    (options : Options) (hs : s.key = some "api".toList)
    (hwrites : Writes (apiSection (d.key?.map String.toList)
      (recipeSection? "api" d recipe registry options)) s) :
    let document := (Compilation.ofDevice d recipe registry options).document
    ∃ s' ∈ sectionsNamed "api".toList document, (tidyEnd s.lines).map (written d) <+: s'.lines ∧
      (IsLineText d.deviceId ∧ IsLineText d.slug →
        (sectionsNamed "api".toList document).head? = some s') := by
  have hnames := name_mem_of_ofProject d.project registry options
  have hdocument : (Compilation.ofDevice d recipe registry options).document =
      (assemble d recipe (Fragments.ofProject d.project registry options).1 options).1 := rfl
  unfold recipeSection? at hwrites
  rw [hdocument, assemble_eq_filled]
  generalize (Fragments.ofProject d.project registry options).1 = f at hwrites hnames ⊢
  generalize d.project.userText.inject (normalize recipe) = t at hwrites ⊢
  have hkeyless := filter_merged (t := t) hnames (p := (·.isNone)) (fun _ _ => rfl)
    (Section.split (fill t f).text)
  -- the fixed sections and the lines in front of the first key are those of the recipe
  have htaken := fun name hname => takeSection_merged (t := t) hnames name
    ((by decide : ∀ name ∈ ["esphome", "api"], name ∉ generatedNames) name hname)
    (Section.split (fill t f).text)
  dsimp only at hwrites ⊢
  generalize (mergeSections (Section.split (fill t f).text) _).1 = ss at hkeyless htaken ⊢
  refine exists_section_api options _ _ hs (by rwa [htaken "api" (by decide)]) (fun x hx => ?_)
    fun x hx hnone => ?_
  · rw [htaken "esphome" (by decide)] at hx
    exact isPart_of_mem_split (mem_named.1 (List.mem_of_mem_head? hx)).1
  · have hx' : x ∈ ss.filter (·.key.isNone) :=
      List.mem_filter.2 ⟨mem_of_mem_others hx, by rw [hnone]; rfl⟩
    rw [hkeyless] at hx'
    exact isPart_of_mem_split (List.mem_of_mem_filter hx')

/-- The section `api` of a document has the device's key nested under a line `encryption`. The
recipe's section has to show neither the key nor its placeholder elsewhere, and its lines have
to be indented if it has no `encryption` of its own. -/
theorem api_section_encrypted (d : Device) (recipe : Text) (registry : Registry)
    (options : Options) {key : String} (hkey : d.key? = some key) (hplain : IsPlain key.toList)
    (h : ∀ s ∈ recipeSection? "api" d recipe registry options, TakesKey key.toList s) :
    let document := (Compilation.ofDevice d recipe registry options).document
    ∃ s ∈ sectionsNamed "api".toList document, isEncrypted (keyForms key.toList) s.lines = true ∧
      (IsLineText d.deviceId ∧ IsLineText d.slug →
        (sectionsNamed "api".toList document).head? = some s) := by
  intro document
  have hsection : ∀ s ∈ recipeSection? "api" d recipe registry options,
      IsPart s ∧ s.key = some "api".toList := by
    intro s hs
    obtain ⟨hmem, hname⟩ := mem_named.1 (List.mem_of_mem_head? hs)
    exact ⟨isPart_of_mem_split hmem, hname⟩
  obtain ⟨s, hs, hwrites, hencrypted⟩ := exists_writes_encrypted hsection h
  rw [← Option.map_some, ← hkey] at hwrites
  obtain ⟨s', hs', ⟨more, hlines⟩, hfirst⟩ :=
    exists_section_of_recipe d recipe registry options hs hwrites
  refine ⟨s', hs', ?_, hfirst⟩
  rw [← hlines]
  exact isEncrypted_append (isEncrypted_written hkey hplain (isEncrypted_tidyEnd hencrypted))
    [] more

/-- A device with a key. -/
def keyedPanel : Device := { panel with apiKey := some " k3y= " }

/-- A recipe with the section `api` that is given. -/
def apiRecipe (lines : List String) : Text :=
  joinLines ((["esphome:", "  platform: esp32", "api:"] ++ lines ++
    ["lvgl:", "  #__LVGL_PAGES__"]).map String.toList)

theorem api_section_encrypted_panel :
    ∃ s ∈ sectionsNamed "api".toList
      (Compilation.ofDevice keyedPanel (apiRecipe ["  # no key yet", "  reboot_timeout: 0s"])
        .builtin {}).document, isEncrypted (keyForms "k3y=".toList) s.lines = true := by
  have hkey : keyedPanel.key? = some "k3y=" := by decide
  have hplain : IsPlain "k3y=".toList := isPlain_iff.2 (by decide)
  obtain ⟨s, hs, hencrypted, -⟩ := api_section_encrypted keyedPanel
    (apiRecipe ["  # no key yet", "  reboot_timeout: 0s"]) .builtin {} hkey hplain
    (by decide +kernel)
  exact ⟨s, hs, hencrypted⟩

/-- A recipe that puts the key in another place gets no `encryption`. -/
theorem key_left_in_place :
    keyedPanel.key? = some "k3y=" ∧ IsPlain "k3y=".toList ∧
      ∀ s ∈ sectionsNamed "api".toList (Compilation.ofDevice keyedPanel
        (apiRecipe ["  password: __ETD_API_KEY__"]) .builtin {}).document,
          isEncrypted (keyForms "k3y=".toList) s.lines = false := by
  refine ⟨by decide, isPlain_iff.2 (by decide), ?_⟩
  decide +kernel

end TouchPanel.Document
