import Boto.Support.Regex
import Boto.TextMethods

/-!
# Hosts of certificates

`GetValidHostsForCert` and `ValidateCertificateHostname` of `boto/https_connection.py`.  A host of
a certificate is turned into a pattern, in which `re` ignores the case of characters.
-/

namespace Boto.Connection

/-! ## Certificates -/

/-- A distinguished name is a list of these: attributes, and at least one. -/
structure RelativeName where
  first : Text × Text
  others : List (Text × Text)

/-- The dictionary of a certificate. -/
structure Certificate where
  subjectAltName : Option (List (Text × Text))
  subject : List RelativeName

/-- `GetValidHostsForCert`. -/
def getValidHostsForCert (cert : Certificate) : List Text :=
  match cert.subjectAltName with
  | some names => (names.filter fun x => lower x.1 = "dns".toList).map Prod.snd
  | none =>
      (cert.subject.filter fun x => lower x.first.1 = "commonname".toList).map fun x => x.first.2

/-! ## Patterns -/

/-- The characters that `re.I` takes for the same.  They are those that differ in ASCII case, and
under Python 3 some more letters. -/
structure IgnoreCase where
  same : Char → Char → Bool
  same_of_toLower : ∀ c d : Char, c.toLower = d.toLower → same c d = true
  dot : ∀ c, same '.' c = true → c = '.'

/-- The flag under Python 2. -/
def asciiIgnoreCase : IgnoreCase where
  same c d := decide (c.toLower = d.toLower)
  same_of_toLower := fun _ _ heq => decide_eq_true heq
  dot := fun _ hsame => eq_of_toLower (by decide +kernel) (of_decide_eq_true hsame).symm

/-- `text.replace(old, new)`, for an `old` of one character. -/
def replaceChar (old : Char) (new : Text) (text : Text) : Text :=
  text.flatMap fun c => if c = old then new else [c]

/-- The pattern of a host. -/
def hostRe (host : Text) : Text :=
  replaceChar '*' "[^.]*".toList (replaceChar '.' "\\.".toList host)

/-- Whether one of the hosts matches.  There is no answer if a pattern cannot be compiled. -/
def anyMatches (ignoreCase : IgnoreCase) (hostname : Text) : List Text → Option Bool
  | [] => some false
  | host :: hosts => do
      let regex ← Regex.compile ('^' :: (hostRe host ++ ['$']))
      if Regex.search ignoreCase.same regex hostname then return true
      anyMatches ignoreCase hostname hosts

/-- `ValidateCertificateHostname`. -/
def validateCertificateHostname (ignoreCase : IgnoreCase) (cert : Certificate)
    (hostname : Text) : Option Bool :=
  anyMatches ignoreCase hostname (getValidHostsForCert cert)

/-! ## What hosts stand for -/

/-- The hosts that a certificate names. -/
def namedHosts (cert : Certificate) : List Text :=
  match cert.subjectAltName with
  | some names => (names.filter fun x => lower x.1 = "dns".toList).map Prod.snd
  | none => cert.subject.flatMap fun x =>
      ((x.first :: x.others).filter fun x => lower x.1 = "commonname".toList).map Prod.snd

/-- A star stands for a text without dots, and every other character for itself in either case. -/
def IsMatch : Text → Text → Prop
  | [], hostname => hostname = []
  | c :: host, hostname =>
      if c = '*' then ∃ part rest, hostname = part ++ rest ∧ '.' ∉ part ∧ IsMatch host rest
      else ∃ d rest, hostname = d :: rest ∧ c.toLower = d.toLower ∧ IsMatch host rest

/-- A certificate is valid for a hostname if one of its hosts matches it. -/
def IsValidFor (cert : Certificate) (hostname : Text) : Prop :=
  ∃ host ∈ namedHosts cert, IsMatch host hostname

/-! ## The condition -/

/-- The characters that a pattern gives a meaning, besides the brace. -/
def metacharacters : List Char := ['\\', '^', '$', '+', '?', '(', ')', '[', '|']

/-- No character of a host has another meaning in its pattern. -/
def IsLiteral : Text → Prop
  | [] => True
  | c :: host => c ∉ metacharacters ∧ (c = '{' → Regex.bounds host = none) ∧ IsLiteral host

/-- Hosts are literal up to the first one that matches. -/
def AreLiteral (hostname : Text) : List Text → Prop
  | [] => True
  | host :: hosts => IsLiteral host ∧ (IsMatch host hostname ∨ AreLiteral hostname hosts)

/-- The hosts are literal, and named first; the hostname has no newline behind a valid one; and
`re` takes no other characters for the same. -/
structure IsPlainFor (ignoreCase : IgnoreCase) (cert : Certificate) (hostname : Text) : Prop where
  literal : AreLiteral hostname (namedHosts cert)
  names : cert.subjectAltName = none → ∀ x ∈ cert.subject, ∀ other ∈ x.others,
    lower other.1 ≠ "commonname".toList
  newline : ∀ front, hostname = front ++ ['\n'] → IsValidFor cert front → IsValidFor cert hostname
  case : ∀ host ∈ namedHosts cert, ∀ c ∈ host, ∀ d ∈ hostname, ignoreCase.same c d = true →
    c.toLower = d.toLower

end Boto.Connection

/-!
## Which hostnames a certificate is valid for

The pattern of a literal host is compiled into its characters, with a set that is repeated for each
star.  It matches what the host matches, and that with a newline behind it.
-/

namespace Boto.Connection

/-! ## Patterns of hosts -/

/-- What a character of a host is turned into. -/
def hostPiece (c : Char) : Text :=
  if c = '*' then "[^.]*".toList else if c = '.' then "\\.".toList else [c]

theorem replaceChar_append (old : Char) (new text text' : Text) :
    replaceChar old new (text ++ text') = replaceChar old new text ++ replaceChar old new text' :=
  List.flatMap_append

theorem hostRe_cons (c : Char) (host : Text) : hostRe (c :: host) = hostPiece c ++ hostRe host := by
  have hcons : replaceChar '.' "\\.".toList (c :: host) =
      (if c = '.' then "\\.".toList else [c]) ++ replaceChar '.' "\\.".toList host := rfl
  rw [hostRe, hcons, replaceChar_append, ← hostRe, hostPiece]
  congr 1
  by_cases hstar : c = '*'
  · rw [hstar]
    rfl
  · by_cases hdot : c = '.'
    · rw [hdot]
      rfl
    · rw [if_neg hdot, if_neg hstar]
      simp [replaceChar, hstar]

/-- The head of a pattern is a bracket, a backslash, the end, or the head of the host. -/
theorem head?_hostRe {c : Char} (hc : c ∉ ['[', '\\', '$']) {host : Text}
    (hhost : host.head? ≠ some c) : (hostRe host ++ ['$']).head? ≠ some c := by
  simp only [List.mem_cons, List.not_mem_nil, or_false, not_or] at hc
  intro heq
  cases host with
  | nil => exact hc.2.2 (Option.some.inj heq).symm
  | cons d host =>
      rw [hostRe_cons, hostPiece] at heq
      split at heq
      · exact hc.1 (Option.some.inj heq).symm
      · split at heq
        · exact hc.2.1 (Option.some.inj heq).symm
        · exact hhost heq

theorem takeWhile_hostRe (host : Text) :
    (hostRe host ++ ['$']).takeWhile Char.isDigit = host.takeWhile Char.isDigit ∧
      (hostRe host ++ ['$']).dropWhile Char.isDigit =
        hostRe (host.dropWhile Char.isDigit) ++ ['$'] := by
  induction host with
  | nil => exact ⟨rfl, rfl⟩
  | cons c host ih =>
      rw [hostRe_cons, hostPiece]
      by_cases hdigit : c.isDigit = true
      · have hstar : c ≠ '*' := by
          rintro rfl
          cases hdigit
        have hdot : c ≠ '.' := by
          rintro rfl
          cases hdigit
        rw [if_neg hstar, if_neg hdot, List.singleton_append, List.cons_append,
          List.takeWhile_cons_of_pos hdigit, List.takeWhile_cons_of_pos hdigit,
          List.dropWhile_cons_of_pos hdigit, List.dropWhile_cons_of_pos hdigit, ih.1]
        exact ⟨rfl, ih.2⟩
      · rw [List.takeWhile_cons_of_neg hdigit, List.dropWhile_cons_of_neg hdigit, hostRe_cons,
          hostPiece]
        split
        · exact ⟨rfl, rfl⟩
        · split
          · exact ⟨rfl, rfl⟩
          · rw [List.singleton_append, List.cons_append, List.takeWhile_cons_of_neg hdigit,
              List.dropWhile_cons_of_neg hdigit]
            exact ⟨rfl, rfl⟩

/-- A brace that starts no bounds in a host starts none in its pattern. -/
theorem bounds_hostRe {host : Text} (hbounds : Regex.bounds host = none) :
    Regex.bounds (hostRe host ++ ['$']) = none := by
  obtain ⟨htake, hdrop⟩ := takeWhile_hostRe host
  by_cases hclose : (host.dropWhile Char.isDigit).head? = some '\x7d'
  · obtain ⟨rest, hrest⟩ := List.head?_eq_some_iff.mp hclose
    rw [Regex.bounds_close hrest] at hbounds
    rw [hrest, hostRe_cons] at hdrop
    rw [@Regex.bounds_close _ (hostRe rest ++ ['$']) hdrop, htake]
    simpa using hbounds
  by_cases hcomma : (host.dropWhile Char.isDigit).head? = some ','
  · obtain ⟨rest, hrest⟩ := List.head?_eq_some_iff.mp hcomma
    rw [Regex.bounds_comma hrest] at hbounds
    rw [hrest, hostRe_cons] at hdrop
    rw [@Regex.bounds_comma _ (hostRe rest ++ ['$']) hdrop, (takeWhile_hostRe rest).2]
    exact head?_hostRe (by decide) hbounds
  · apply Regex.bounds_other
    · rw [hdrop]
      exact head?_hostRe (by decide) hclose
    · rw [hdrop]
      exact head?_hostRe (by decide) hcomma

/-- The items of a pattern. -/
def hostItems (host : Text) : List Regex :=
  host.map fun c => if c = '*' then .repeated (.set true [('.', '.')]) 0 none else .char c

/-- The pattern of a literal host is compiled into its items. -/
theorem parse_hostRe {host : Text} (hliteral : IsLiteral host) {fuel : ℕ}
    (hfuel : (hostRe host).length + 1 < fuel) (items : List Regex) :
    Regex.parse fuel (hostRe host ++ ['$']) ⟨none, items⟩ [] =
      some ((items.reverse ++ (hostItems host ++ [Regex.finish])).foldr .seq .empty) := by
  induction host generalizing fuel items with
  | nil =>
      obtain ⟨fuel, rfl⟩ := Nat.exists_eq_add_of_le' hfuel
      have hclose : ∀ fuel, Regex.parse (fuel + 2) ['$'] ⟨none, items⟩ [] =
          some ((Regex.finish :: items).reverse.foldr .seq .empty) := fun _ => rfl
      rw [List.reverse_cons] at hclose
      exact hclose fuel
  | cons c host ih =>
      obtain ⟨hc, hbrace, hliteral⟩ := hliteral
      have hnext : ∀ d ∈ metacharacters, host.head? ≠ some d := by
        intro d hd heq
        obtain ⟨others, rfl⟩ := List.head?_eq_some_iff.mp heq
        exact hliteral.1 hd
      simp only [metacharacters, List.mem_cons, List.not_mem_nil, or_false, not_or] at hc
      have hitems : ∀ item, (item :: items).reverse ++ (hostItems host ++ [Regex.finish]) =
          items.reverse ++ (item :: hostItems host ++ [Regex.finish]) := by
        simp
      rw [hostRe_cons, List.length_append] at hfuel
      rw [hostRe_cons, List.append_assoc, hostItems, List.map_cons, ← hostItems]
      rw [hostPiece] at hfuel ⊢
      by_cases hstar : c = '*'
      · rw [if_pos hstar] at hfuel
        rw [if_pos hstar, if_pos hstar]
        have hlength : "[^.]*".toList.length = 5 := rfl
        rw [hlength] at hfuel
        have hle : 2 ≤ fuel := by omega
        obtain ⟨fuel, rfl⟩ := Nat.exists_eq_add_of_le' hle
        have hbracket : Regex.bracket ("^.]*".toList ++ (hostRe host ++ ['$'])) =
            some (.set true [('.', '.')], '*' :: (hostRe host ++ ['$'])) := rfl
        have hlt : (hostRe host).length + 1 < fuel := by omega
        have hread := ih hliteral hlt (.repeated (.set true [('.', '.')]) 0 none :: items)
        have hplus : (hostRe host ++ ['$']).head? ≠ some '+' :=
          head?_hostRe (by decide) (hnext _ (by decide))
        have hshort : (hostRe host ++ ['$']).head? ≠ some '?' :=
          head?_hostRe (by decide) (hnext _ (by decide))
        rw [hitems] at hread
        refine (Regex.parse_bracket hbracket).trans ?_
        exact (Regex.parse_star rfl ⟨hplus, hshort⟩).trans hread
      · rw [if_neg hstar] at hfuel
        rw [if_neg hstar, if_neg hstar]
        by_cases hdot : c = '.'
        · rw [if_pos hdot] at hfuel
          rw [if_pos hdot]
          have hlength : "\\.".toList.length = 2 := rfl
          rw [hlength] at hfuel
          have hle : 1 ≤ fuel := by omega
          obtain ⟨fuel, rfl⟩ := Nat.exists_eq_add_of_le' hle
          have hlt : (hostRe host).length + 1 < fuel := by omega
          have hread := ih hliteral hlt (.char '.' :: items)
          rw [hitems] at hread
          rw [hdot]
          exact (Regex.parse_escape (by decide)).trans hread
        · rw [if_neg hdot, List.length_singleton] at hfuel
          rw [if_neg hdot]
          have hle : 1 ≤ fuel := by omega
          obtain ⟨fuel, rfl⟩ := Nat.exists_eq_add_of_le' hle
          have hlt : (hostRe host).length + 1 < fuel := by omega
          have hread := ih hliteral hlt (.char c :: items)
          rw [hitems] at hread
          have hmarks : c ∉ Regex.marks := by
            simp [Regex.marks, hc, hdot]
          have hquantifier : Regex.quantifier (c :: (hostRe host ++ ['$'])) = none :=
            Regex.quantifier_eq_none (by simp [hc, hstar]) fun heq => bounds_hostRe (hbrace heq)
          exact (Regex.parse_literal hmarks hquantifier).trans hread

/-! ## Matches -/

/-- A host matches what its pattern takes for it, up to the end. -/
def IsMatchIn (ignoreCase : IgnoreCase) : Text → Text → Prop
  | [], hostname => hostname = []
  | c :: host, hostname =>
      if c = '*' then
        ∃ part rest, hostname = part ++ rest ∧ '.' ∉ part ∧ IsMatchIn ignoreCase host rest
      else ∃ d rest, hostname = d :: rest ∧ ignoreCase.same c d = true ∧
        IsMatchIn ignoreCase host rest

section

variable {ignoreCase : IgnoreCase}

theorem accepts_star (c : Char) :
    (true != [('.', '.')].any fun range => Regex.inRange ignoreCase.same range.1 range.2 c) =
      true ↔ c ≠ '.' := by
  have hrange : Regex.inRange ignoreCase.same '.' '.' c = ignoreCase.same '.' c := by
    simp [Regex.inRange, Nat.isValidChar]
  rw [List.any_cons, List.any_nil, Bool.or_false, hrange]
  by_cases hc : c = '.'
  · rw [hc, ignoreCase.same_of_toLower '.' '.' rfl]
    decide
  · have hsame : ignoreCase.same '.' c = false := by
      rw [← Bool.not_eq_true]
      exact fun htrue => hc (ignoreCase.dot c htrue)
    simp [hc, hsame]

/-- The items of a host match what the host matches, and a newline may follow. -/
theorem ends_hostItems {host : Text} {place : Regex.Place} :
    (∃ place', place' ∈ Regex.ends ignoreCase.same
      ((hostItems host ++ [Regex.finish]).foldr .seq .empty) place) ↔
      ∃ hostname, IsMatchIn ignoreCase host hostname ∧
        (place.rest = hostname ∨ place.rest = hostname ++ ['\n']) := by
  induction host generalizing place with
  | nil =>
      have hfinish : ∀ place', place' ∈ Regex.ends ignoreCase.same
          ((hostItems [] ++ [Regex.finish]).foldr .seq .empty) place ↔
            place' = place ∧ (place.rest = [] ∨ place.rest = ['\n']) := by
        intro place'
        have hitems : (hostItems [] ++ [Regex.finish]).foldr .seq .empty =
            Regex.seq .finish .empty := rfl
        rw [hitems, Regex.mem_ends_seq]
        simp only [Regex.mem_ends_finish, Regex.mem_ends_empty]
        constructor
        · rintro ⟨middle, ⟨rfl, hrest⟩, rfl⟩
          exact ⟨rfl, hrest⟩
        · rintro ⟨rfl, hrest⟩
          exact ⟨_, ⟨rfl, hrest⟩, rfl⟩
      constructor
      · rintro ⟨place', hin⟩
        exact ⟨[], rfl, ((hfinish place').mp hin).2⟩
      · rintro ⟨hostname, rfl, hrest⟩
        exact ⟨place, (hfinish place).mpr ⟨rfl, hrest⟩⟩
  | cons c host ih =>
      have hitems : (hostItems (c :: host) ++ [Regex.finish]).foldr .seq .empty =
          Regex.seq (if c = '*' then .repeated (.set true [('.', '.')]) 0 none else .char c)
            ((hostItems host ++ [Regex.finish]).foldr .seq .empty) := rfl
      rw [hitems]
      simp only [Regex.mem_ends_seq, IsMatchIn]
      by_cases hstar : c = '*'
      · simp only [if_pos hstar]
        have hstep : ∀ middle, middle ∈ Regex.ends ignoreCase.same
            (.repeated (.set true [('.', '.')]) 0 none) place ↔
              ∃ part, '.' ∉ part ∧ place.rest = part ++ middle.rest ∧
                middle.isFirst = (place.isFirst && part.isEmpty) := by
          intro middle
          have hends : Regex.ends ignoreCase.same (.repeated (.set true [('.', '.')]) 0 none) place =
              Regex.iterate (Regex.take fun c => true != [('.', '.')].any fun range =>
                Regex.inRange ignoreCase.same range.1 range.2 c) place.rest.length 0 none place := rfl
          have hnone : ∀ part : Text, (∀ c ∈ part, c ≠ '.') ↔ '.' ∉ part := fun part =>
            ⟨fun hall hin => hall '.' hin rfl, fun hdot c hc heq => hdot (heq ▸ hc)⟩
          rw [hends, Regex.mem_iterate_take (Nat.le_refl _)]
          simp only [accepts_star, hnone]
        constructor
        · rintro ⟨place', middle, hmiddle, hin⟩
          obtain ⟨part, hpart, hrest, -⟩ := (hstep middle).mp hmiddle
          obtain ⟨hostname, hmatch, hend⟩ := ih.mp ⟨place', hin⟩
          refine ⟨part ++ hostname, ⟨part, hostname, rfl, hpart, hmatch⟩, ?_⟩
          rw [hrest, List.append_assoc]
          exact hend.imp (fun heq => by rw [heq]) fun heq => by rw [heq]
        · rintro ⟨_, ⟨part, rest, rfl, hpart, hmatch⟩, hend⟩
          obtain ⟨after, hplace, hafter⟩ : ∃ after, place.rest = part ++ after ∧
              (after = rest ∨ after = rest ++ ['\n']) := by
            rcases hend with heq | heq
            · exact ⟨rest, heq, .inl rfl⟩
            · exact ⟨rest ++ ['\n'], by rw [heq, List.append_assoc], .inr rfl⟩
          have hrest := (@ih ⟨place.isFirst && part.isEmpty, after⟩).mpr ⟨rest, hmatch, hafter⟩
          obtain ⟨place', hin⟩ := hrest
          exact ⟨place', _, (hstep _).mpr ⟨part, hpart, hplace, rfl⟩, hin⟩
      · simp only [if_neg hstar]
        constructor
        · rintro ⟨place', middle, hmiddle, hin⟩
          obtain ⟨-, d, hd, hrest⟩ := Regex.mem_take.mp hmiddle
          obtain ⟨hostname, hmatch, hend⟩ := ih.mp ⟨place', hin⟩
          refine ⟨d :: hostname, ⟨d, hostname, rfl, hd, hmatch⟩, ?_⟩
          rw [hrest]
          exact hend.imp (fun heq => by rw [heq]) fun heq => by rw [heq, List.cons_append]
        · rintro ⟨_, ⟨d, rest, rfl, hd, hmatch⟩, hend⟩
          obtain ⟨after, hplace, hafter⟩ : ∃ after, place.rest = d :: after ∧
              (after = rest ∨ after = rest ++ ['\n']) := by
            rcases hend with heq | heq
            · exact ⟨rest, heq, .inl rfl⟩
            · exact ⟨rest ++ ['\n'], heq, .inr rfl⟩
          obtain ⟨place', hin⟩ := (@ih ⟨false, after⟩).mpr ⟨rest, hmatch, hafter⟩
          exact ⟨place', _, Regex.mem_take.mpr ⟨rfl, d, hd, hplace⟩, hin⟩

theorem isEmpty_eq_false_iff_exists {places : List Regex.Place} :
    (!places.isEmpty) = true ↔ ∃ place, place ∈ places := by
  rw [Bool.not_eq_true', List.isEmpty_eq_false_iff_exists_mem]

/-- What the pattern of a literal host matches. -/
theorem search_hostRe {host : Text} (hliteral : IsLiteral host) (hostname : Text) :
    ∃ regex, Regex.compile ('^' :: (hostRe host ++ ['$'])) = some regex ∧
      (Regex.search ignoreCase.same regex hostname = true ↔
        ∃ front, IsMatchIn ignoreCase host front ∧
          (hostname = front ∨ hostname = front ++ ['\n'])) := by
  have hfuel : (hostRe host).length + 1 < ('^' :: (hostRe host ++ ['$'])).length := by
    simp
  have hparse := parse_hostRe hliteral hfuel [Regex.start]
  refine ⟨_, hparse, ?_⟩
  have hlater : ∀ rest, Regex.ends ignoreCase.same
      (([Regex.start].reverse ++ (hostItems host ++ [Regex.finish])).foldr .seq .empty)
        ⟨false, rest⟩ = [] := fun _ => rfl
  have hfirst : Regex.ends ignoreCase.same
      (([Regex.start].reverse ++ (hostItems host ++ [Regex.finish])).foldr .seq .empty)
        ⟨true, hostname⟩ = Regex.ends ignoreCase.same
          ((hostItems host ++ [Regex.finish]).foldr .seq .empty) ⟨true, hostname⟩ :=
    List.append_nil _
  have hnone : (hostname.tails.tail.any fun rest => !(Regex.ends ignoreCase.same
      (([Regex.start].reverse ++ (hostItems host ++ [Regex.finish])).foldr .seq .empty)
        ⟨false, rest⟩).isEmpty) = false := by
    rw [List.any_eq_false]
    intro rest _
    rw [hlater]
    decide
  rw [Regex.search, hnone, Bool.or_false, hfirst, isEmpty_eq_false_iff_exists, ends_hostItems]

/-! ## The condition -/

theorem isMatchIn_of_isMatch {host hostname : Text} (hmatch : IsMatch host hostname) :
    IsMatchIn ignoreCase host hostname := by
  induction host generalizing hostname with
  | nil => exact hmatch
  | cons c host ih =>
      rw [IsMatch] at hmatch
      rw [IsMatchIn]
      split at hmatch
      · rename_i hstar
        obtain ⟨part, rest, heq, hpart, hrest⟩ := hmatch
        rw [if_pos hstar]
        exact ⟨part, rest, heq, hpart, ih hrest⟩
      · rename_i hstar
        obtain ⟨d, rest, heq, hd, hrest⟩ := hmatch
        rw [if_neg hstar]
        exact ⟨d, rest, heq, ignoreCase.same_of_toLower c d hd, ih hrest⟩

/-- What a host matches in its pattern, it matches if the characters that are the same there are
the same. -/
theorem isMatch_of_isMatchIn {host hostname : Text}
    (hcase : ∀ c ∈ host, ∀ d ∈ hostname, ignoreCase.same c d = true → c.toLower = d.toLower)
    (hmatch : IsMatchIn ignoreCase host hostname) : IsMatch host hostname := by
  induction host generalizing hostname with
  | nil => exact hmatch
  | cons c host ih =>
      have hhost := fun d hd => hcase d (List.mem_cons_of_mem c hd)
      rw [IsMatchIn] at hmatch
      rw [IsMatch]
      split at hmatch
      · rename_i hstar
        obtain ⟨part, rest, rfl, hpart, hrest⟩ := hmatch
        rw [if_pos hstar]
        exact ⟨part, rest, rfl, hpart,
          ih (fun d hd e he => hhost d hd e (List.mem_append_right part he)) hrest⟩
      · rename_i hstar
        obtain ⟨d, rest, rfl, hd, hrest⟩ := hmatch
        rw [if_neg hstar]
        exact ⟨d, rest, rfl, hcase c List.mem_cons_self d List.mem_cons_self hd,
          ih (fun e he f hf => hhost e he f (List.mem_cons_of_mem d hf)) hrest⟩

/-- If a literal host is tried, then it matches, or the others are tried. -/
theorem anyMatches_cons {host : Text} (hliteral : IsLiteral host) (hostname : Text)
    (hosts : List Text) : anyMatches ignoreCase hostname (host :: hosts) = some true ↔
      (∃ front, IsMatchIn ignoreCase host front ∧
        (hostname = front ∨ hostname = front ++ ['\n'])) ∨
          anyMatches ignoreCase hostname hosts = some true := by
  obtain ⟨regex, hregex, hsearch⟩ := @search_hostRe ignoreCase host hliteral hostname
  rw [anyMatches, hregex, ← hsearch]
  cases hfound : Regex.search ignoreCase.same regex hostname with
  | true => simp [hfound]
  | false => simp [hfound]

/-- A host that matches is found. -/
theorem anyMatches_of_isMatch {hostname : Text} {hosts : List Text}
    (hliteral : AreLiteral hostname hosts) (hmatch : ∃ host ∈ hosts, IsMatch host hostname) :
    anyMatches ignoreCase hostname hosts = some true := by
  induction hosts with
  | nil =>
      obtain ⟨host, hhost, -⟩ := hmatch
      cases hhost
  | cons host hosts ih =>
      rw [AreLiteral] at hliteral
      rw [anyMatches_cons hliteral.1]
      by_cases hfirst : IsMatch host hostname
      · exact .inl ⟨hostname, isMatchIn_of_isMatch hfirst, .inl rfl⟩
      · obtain ⟨other, hother, hmatch⟩ := hmatch
        rcases List.mem_cons.mp hother with rfl | hother
        · exact absurd hmatch hfirst
        · exact .inr (ih (hliteral.2.resolve_left hfirst) ⟨other, hother, hmatch⟩)

/-- A host that is found matches in its pattern. -/
theorem isMatchIn_of_anyMatches {hostname : Text} {hosts : List Text}
    (hliteral : AreLiteral hostname hosts)
    (hmatches : anyMatches ignoreCase hostname hosts = some true) :
    ∃ host ∈ hosts, ∃ front, IsMatchIn ignoreCase host front ∧
      (hostname = front ∨ hostname = front ++ ['\n']) := by
  induction hosts with
  | nil => cases hmatches
  | cons host hosts ih =>
      rw [AreLiteral] at hliteral
      rw [anyMatches_cons hliteral.1] at hmatches
      by_cases hfirst : IsMatch host hostname
      · exact ⟨host, List.mem_cons_self, hostname, isMatchIn_of_isMatch hfirst, .inl rfl⟩
      · rcases hmatches with hfound | hmatches
        · exact ⟨host, List.mem_cons_self, hfound⟩
        · obtain ⟨other, hother, hfound⟩ := ih (hliteral.2.resolve_left hfirst) hmatches
          exact ⟨other, List.mem_cons_of_mem host hother, hfound⟩

/-- The hosts that are read are those that are named first. -/
theorem getValidHostsForCert_eq {cert : Certificate}
    (hnames : cert.subjectAltName = none → ∀ x ∈ cert.subject, ∀ other ∈ x.others,
      lower other.1 ≠ "commonname".toList) : getValidHostsForCert cert = namedHosts cert := by
  rw [getValidHostsForCert, namedHosts]
  cases hsubject : cert.subjectAltName with
  | some names => rfl
  | none =>
      have hall := hnames hsubject
      dsimp only
      generalize "commonname".toList = name at hall ⊢
      generalize cert.subject = subject at hall ⊢
      induction subject with
      | nil => rfl
      | cons x subject ih =>
          obtain ⟨hx, hsubject⟩ := List.forall_mem_cons.mp hall
          have hothers : x.others.filter (fun x => lower x.1 = name) = [] := by
            rw [List.filter_eq_nil_iff]
            intro other hother htrue
            exact hx other hother (of_decide_eq_true htrue)
          rw [List.filter_cons, List.flatMap_cons, List.filter_cons, hothers, ← ih hsubject]
          split
          · rfl
          · rfl

end

/-- A certificate with one host. -/
def certFor (host : Text) : Certificate where
  subjectAltName := some [("DNS".toList, host)]
  subject := []

end Boto.Connection
