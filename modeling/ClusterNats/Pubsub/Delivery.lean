import ClusterNats.Pubsub.Topic

/-!
# Which messages a subscriber gets

The topic and the routing key are spliced into the subject as they are, so dots
and wildcards in them take part in the match.  A message reaches exactly the
subscribers of its topic and its routing key where none of that happens.

* `publishAsync_ok`, `subscribeAsync_ok` — what was accepted.
* `tokensMatch_iff`, `subjectMatches_star` — the server's match.
* `ownTokens`, `metTokens`, `delivers_iff` — the match, on the subscriber's own tokens.
* `Unambiguous` — no dot and no wildcard takes part.
* `delivery` — when the right messages are delivered.
-/

namespace ClusterNats

/-- A topic and a routing key that are accepted. -/
def Accepted (topic : String) (routingKey : Option String) : Prop :=
  isBlank topic = false ∧ rejectReservedRoutingKey routingKey = .ok ()

theorem publishAsync_ok {send : NatsMessage → Except String Unit} {selfNodeId topic : String}
    {routingKey : Option String} {payload : Bytes}
    (h : publishAsync send selfNodeId topic routingKey payload = .ok ()) :
    Accepted topic routingKey ∧ send ⟨renderSubject topic routingKey,
      [(fromNodeHeader, bytes selfNodeId)], payload⟩ = .ok () := by
  unfold publishAsync at h
  split at h
  · cases h
  · rename_i hblank
    cases hrk : rejectReservedRoutingKey routingKey with
    | error e => rw [hrk] at h; cases h
    | ok u =>
      rw [hrk] at h
      refine ⟨⟨by simpa using hblank, hrk⟩, ?_⟩
      cases hsend : send ⟨renderSubject topic routingKey, [(fromNodeHeader, bytes selfNodeId)],
          payload⟩ with
      | ok _ => rfl
      | error e =>
        simp only [bind, Except.bind, hsend, Except.mapError] at h
        cases h

theorem subscribeAsync_ok {listen : String → Option String → Except String Unit} {topic : String}
    {group routingKey : Option String} {f : NatsMessage → PublishedMessage}
    (h : subscribeAsync listen topic group routingKey = .ok f) :
    Accepted topic routingKey ∧ f = forward topic ∧
      listen (renderSubjectPattern topic routingKey) group = .ok () := by
  unfold subscribeAsync at h
  split at h
  · cases h
  · rename_i hblank
    cases hrk : rejectReservedRoutingKey routingKey with
    | error e => rw [hrk] at h; cases h
    | ok u =>
      rw [hrk] at h
      cases hlisten : listen (renderSubjectPattern topic routingKey) group with
      | error e =>
        simp only [bind, Except.bind, hlisten, Except.mapError] at h
        cases h
      | ok _ =>
        simp only [pure, Except.pure, bind, Except.bind, hlisten, Except.mapError] at h
        exact ⟨⟨by simpa using hblank, hrk⟩, (Except.ok.inj h).symm, rfl⟩

/-- An accepted routing key is not the reserved one. -/
theorem Accepted.givenKey_ne {topic : String} {routingKey : Option String}
    (h : Accepted topic routingKey) : givenKey routingKey ≠ some defaultRoutingKey := by
  intro hgiven
  obtain ⟨hkey, -⟩ := Option.filter_eq_some_iff.1 hgiven
  have hrk := h.2
  rw [hkey, rejectReservedRoutingKey, if_pos rfl] at hrk
  cases hrk

/-! ## The match of tokens -/

/-- The wildcard of one token. -/
abbrev starToken : Bytes := [42]

/-- The wildcard of all tokens that are left. -/
abbrev tailToken : Bytes := [62]

/-- A token of a filter takes a token of a subject: it is the token, or a `*`. -/
def Takes (f t : Bytes) : Prop := f = starToken ∨ f = t

theorem forall₂_concat {α β : Type} {R : α → β → Prop} {l : List α} {l' : List β} {a : α} {b : β} :
    List.Forall₂ R (l ++ [a]) (l' ++ [b]) ↔ List.Forall₂ R l l' ∧ R a b := by
  rw [← List.forall₂_reverse_iff, List.reverse_append, List.reverse_append]
  simp [and_comm]

/-- A filter matches token by token, up to a final `>`. -/
theorem tokensMatch_iff {fs ts : List Bytes} : tokensMatch fs ts = true ↔ List.Forall₂ Takes fs ts ∨
    ∃ front us vs, fs = front ++ [tailToken] ∧ ts = us ++ vs ∧ vs ≠ [] ∧ List.Forall₂ Takes front us := by
  induction fs generalizing ts with
  | nil => cases ts <;> simp [tokensMatch]
  | cons f fs ih =>
    cases ts with
    | nil =>
      simp only [tokensMatch, Bool.false_eq_true, List.forall₂_nil_right_iff, reduceCtorEq, false_or,
        false_iff]
      rintro ⟨front, us, vs, -, hts, hvs, -⟩
      exact hvs (List.append_eq_nil_iff.1 hts.symm).2
    | cons t ts =>
      simp only [tokensMatch, Bool.or_eq_true, Bool.and_eq_true, beq_iff_eq, List.isEmpty_iff, ih,
        List.forall₂_cons]
      constructor
      · rintro (⟨rfl, rfl⟩ | ⟨htakes, hall | ⟨front, us, vs, rfl, rfl, hvs, hfront⟩⟩)
        · exact .inr ⟨[], [], t :: ts, rfl, rfl, by simp, .nil⟩
        · exact .inl ⟨htakes, hall⟩
        · exact .inr ⟨f :: front, t :: us, vs, rfl, rfl, hvs, .cons htakes hfront⟩
      · rintro (⟨htakes, hall⟩ | ⟨front, us, vs, hfs, hts, hvs, hfront⟩)
        · exact .inr ⟨htakes, .inl hall⟩
        · cases hfront with
          | nil => exact .inl (by simpa using hfs)
          | cons htakes hfront =>
            obtain ⟨rfl, rfl⟩ := List.cons.inj hfs
            obtain ⟨rfl, rfl⟩ := List.cons.inj hts
            exact .inr ⟨htakes, .inr ⟨_, _, vs, rfl, rfl, hvs, hfront⟩⟩

/-- A token has no dot. -/
theorem dot_not_mem_of_mem_splitOn {s t : Bytes} (h : t ∈ s.splitOn dot) : dot ∉ t := by
  induction s generalizing t with
  | nil =>
    rw [List.splitOn_nil, List.mem_singleton] at h
    simp [h]
  | cons c s ih =>
    rw [List.splitOn_cons_eq_if_modifyHead] at h
    split at h
    · rcases List.mem_cons.1 h with rfl | h
      · simp
      · exact ih h
    · rename_i hc
      obtain ⟨u, us, hsplit⟩ := List.exists_cons_of_ne_nil (List.splitOn_ne_nil dot s)
      rw [hsplit] at h ih
      rcases List.mem_cons.1 h with rfl | h
      · have hu := ih (List.mem_cons_self)
        simp only [List.mem_cons, not_or]
        exact ⟨fun heq => hc (by simp [heq]), hu⟩
      · exact ih (List.mem_cons_of_mem _ h)

theorem splitOn_dot_injective {s t : Bytes} (h : s.splitOn dot = t.splitOn dot) : s = t := by
  calc s = [dot].intercalate (s.splitOn dot) := (List.intercalate_splitOn dot).symm
    _ = [dot].intercalate (t.splitOn dot) := by rw [h]
    _ = t := List.intercalate_splitOn dot

theorem tokensMatch_self (ts : List Bytes) : tokensMatch ts ts = true := by
  induction ts with
  | nil => rfl
  | cons t ts ih => simp [tokensMatch, ih]

theorem tokensMatch_star (ts : List Bytes) (t : Bytes) :
    tokensMatch (ts ++ [starToken]) (ts ++ [t]) = true := by
  induction ts with
  | nil => simp [tokensMatch]
  | cons u ts ih => simp [tokensMatch, ih]

/-- Without a final `>` a filter matches subjects of its own length. -/
theorem tokensMatch_length {fs ts : List Bytes} (hlast : fs.getLast? ≠ some [62])
    (h : tokensMatch fs ts = true) : fs.length = ts.length := by
  induction fs generalizing ts with
  | nil =>
    cases ts with
    | nil => rfl
    | cons t ts => simp [tokensMatch] at h
  | cons f fs ih =>
    cases ts with
    | nil => simp [tokensMatch] at h
    | cons t ts =>
      simp only [tokensMatch, Bool.or_eq_true, Bool.and_eq_true] at h
      rcases h with ⟨hf, hfs⟩ | ⟨-, h⟩
      · have hnil : fs = [] := by simpa using hfs
        exact absurd (by simp [hnil, beq_iff_eq.1 hf]) hlast
      · refine congrArg Nat.succ (ih (fun hl => hlast ?_) h)
        cases fs with
        | nil => cases hl
        | cons g gs => rwa [List.getLast?_cons_cons]

theorem subjectMatches_self (s : Bytes) : subjectMatches s s = true := tokensMatch_self _

/-- A final `*` matches one last token. -/
theorem subjectMatches_star (s : Bytes) {last : Bytes} (h : dot ∉ last) :
    subjectMatches (s ++ dot :: starToken) (s ++ dot :: last) = true := by
  rw [subjectMatches, List.splitOn_append_cons_self, List.splitOn_append_cons_self,
    List.splitOn_eq_singleton h, List.splitOn_eq_singleton (show dot ∉ starToken by decide)]
  exact tokensMatch_star _ _

/-- The last token has no dot. -/
theorem dot_not_mem_of_matches {s last : Bytes}
    (h : subjectMatches (s ++ dot :: starToken) (s ++ dot :: last) = true) : dot ∉ last := by
  rw [subjectMatches, List.splitOn_append_cons_self, List.splitOn_append_cons_self,
    List.splitOn_eq_singleton (show dot ∉ starToken by decide)] at h
  have hlen := tokensMatch_length (by simp) h
  simp only [List.length_append, List.length_singleton] at hlen
  intro hdot
  obtain ⟨a, b, rfl⟩ := List.append_of_mem hdot
  rw [List.splitOn_append_cons_self, List.length_append] at hlen
  have ha := List.length_pos_of_ne_nil (List.splitOn_ne_nil dot a)
  have hb := List.length_pos_of_ne_nil (List.splitOn_ne_nil dot b)
  omega

/-- A text with a dot in it splits in one way at a dot with as many before it. -/
theorem append_dot_inj {a a' b b' : Bytes} (hcount : a.count dot = a'.count dot)
    (h : a ++ dot :: b = a' ++ dot :: b') : a = a' ∧ b = b' := by
  induction a generalizing a' with
  | nil =>
    cases a' with
    | nil => exact ⟨rfl, (List.cons.inj h).2⟩
    | cons c a' =>
      obtain ⟨rfl, -⟩ := List.cons.inj h
      simp at hcount
  | cons c a ih =>
    cases a' with
    | nil =>
      obtain ⟨rfl, -⟩ := List.cons.inj h
      simp at hcount
    | cons c' a' =>
      obtain ⟨rfl, hrest⟩ := List.cons.inj h
      obtain ⟨rfl, rfl⟩ := ih (by simpa [List.count_cons] using hcount) hrest
      exact ⟨rfl, rfl⟩

/-! ## The subjects -/

/-- The routing key's token on the wire. -/
def wireKey (routingKey : Option String) : String := (givenKey routingKey).getD defaultRoutingKey

/-- A subject up to its topic. -/
def topicSubject (topic : String) : Bytes := bytes (notifySubjectPrefix ++ "." ++ topic)

section Subjects

variable (topic : String) (routingKey : Option String)

theorem bytes_renderSubject : bytes (renderSubject topic routingKey) =
    topicSubject topic ++ dot :: bytes (wireKey routingKey) := by
  have hdot : bytes "." = [dot] := by decide
  rw [renderSubject, bytes_append, bytes_append, hdot, topicSubject, wireKey, List.append_assoc]
  rfl

theorem bytes_renderSubjectPattern_some {topic : String} {routingKey : Option String} {k : String}
    (h : givenKey routingKey = some k) : bytes (renderSubjectPattern topic routingKey) =
      topicSubject topic ++ dot :: bytes k := by
  have hdot : bytes "." = [dot] := by decide
  rw [renderSubjectPattern, h]
  rw [bytes_append, bytes_append, hdot, topicSubject, List.append_assoc]
  rfl

theorem bytes_renderSubjectPattern_none {topic : String} {routingKey : Option String}
    (h : givenKey routingKey = none) : bytes (renderSubjectPattern topic routingKey) =
      topicSubject topic ++ dot :: starToken := by
  have hstar : bytes ".*" = dot :: starToken := by decide
  rw [renderSubjectPattern, h, bytes_append, hstar, topicSubject]

end Subjects

theorem topicSubject_injective {t t' : String} (h : topicSubject t = topicSubject t') : t = t' := by
  have heq := bytes_injective h
  exact String.append_right_inj _ |>.1 heq

/-- The tokens of a subject. -/
def subjectTokens (topic : String) (routingKey : Option String) : List Bytes :=
  (topicSubject topic).splitOn dot ++ (bytes (wireKey routingKey)).splitOn dot

/-- The tokens of a subscriber's own topic and routing key. -/
def ownTokens (topic : String) (routingKey : Option String) : List Bytes :=
  (topicSubject topic).splitOn dot ++ ((givenKey routingKey).elim [] fun k => (bytes k).splitOn dot)

/-- The tokens of a subject that a subscriber's own tokens meet: all of them, or all
but the last where it takes any routing key. -/
def metTokens (topic : String) (routingKey routingKey' : Option String) : List Bytes :=
  (givenKey routingKey').elim (subjectTokens topic routingKey).dropLast fun _ =>
    subjectTokens topic routingKey

theorem subjectTokens_ne_nil (topic : String) (routingKey : Option String) :
    subjectTokens topic routingKey ≠ [] := by
  simp [subjectTokens]

theorem dot_not_mem_of_mem_subjectTokens {topic : String} {routingKey : Option String} {t : Bytes}
    (h : t ∈ subjectTokens topic routingKey) : dot ∉ t := by
  rcases List.mem_append.1 h with h | h
  · exact dot_not_mem_of_mem_splitOn h
  · exact dot_not_mem_of_mem_splitOn h

theorem splitOn_renderSubject (topic : String) (routingKey : Option String) :
    (bytes (renderSubject topic routingKey)).splitOn dot = subjectTokens topic routingKey := by
  rw [bytes_renderSubject, List.splitOn_append_cons_self, subjectTokens]

theorem splitOn_renderSubjectPattern (topic : String) (routingKey : Option String) :
    (bytes (renderSubjectPattern topic routingKey)).splitOn dot =
      ownTokens topic routingKey ++ (givenKey routingKey).elim [starToken] fun _ => [] := by
  cases hk : givenKey routingKey with
  | some k => rw [bytes_renderSubjectPattern_some hk, List.splitOn_append_cons_self, ownTokens, hk]; simp
  | none =>
    rw [bytes_renderSubjectPattern_none hk, List.splitOn_append_cons_self, ownTokens, hk,
      List.splitOn_eq_singleton (show dot ∉ starToken by decide)]
    simp

/-- The server delivers a message of `topic` and `routingKey` to a subscriber of
`topic'` and `routingKey'`. -/
def Delivers (topic : String) (routingKey : Option String) (topic' : String)
    (routingKey' : Option String) : Prop :=
  subjectMatches (bytes (renderSubjectPattern topic' routingKey'))
    (bytes (renderSubject topic routingKey)) = true

/-- The subscriber gets the message exactly when it asked for it, and with the
publisher's routing key. -/
def DeliveredRight (topic : String) (routingKey : Option String) (topic' : String)
    (routingKey' : Option String) : Prop :=
  (Delivers topic routingKey topic' routingKey' ↔
    topic = topic' ∧ (givenKey routingKey' = none ∨ givenKey routingKey' = givenKey routingKey)) ∧
  (Delivers topic routingKey topic' routingKey' →
    recoverRoutingKey topic' (renderSubject topic routingKey) = givenKey routingKey)

/-- The subject is the pattern as a text, but for the last token of an
unfiltered pattern. -/
def ReadsAs (topic : String) (routingKey : Option String) (topic' : String)
    (routingKey' : Option String) : Prop :=
  match givenKey routingKey' with
  | some k => topicSubject topic ++ dot :: bytes (wireKey routingKey) =
      topicSubject topic' ++ dot :: bytes k
  | none => ∃ last, dot ∉ last ∧ topicSubject topic ++ dot :: bytes (wireKey routingKey) =
      topicSubject topic' ++ dot :: last

/-- No dot and no wildcard of a topic or a routing key takes part in the match. -/
structure Unambiguous (topic : String) (routingKey : Option String) (topic' : String)
    (routingKey' : Option String) : Prop where
  /-- No `*` of the subscriber takes another token: where each of its own tokens is a
  `*` or the token it meets, it is the token it meets. -/
  literal : List.Forall₂ Takes (ownTokens topic' routingKey') (metTokens topic routingKey routingKey') →
    ownTokens topic' routingKey' = metTokens topic routingKey routingKey'
  /-- No final `>` of the subscriber's routing key takes other tokens: where each token
  before it is a `*` or the token it meets, `>` is left. -/
  closed : givenKey routingKey' ≠ none → ∀ front us vs, ownTokens topic' routingKey' = front ++ [tailToken] →
    subjectTokens topic routingKey = us ++ vs → vs ≠ [] → List.Forall₂ Takes front us → vs = [tailToken]
  /-- Where the texts agree, the topics have equally many dots. -/
  aligned : ReadsAs topic routingKey topic' routingKey' →
    (topicSubject topic).count dot = (topicSubject topic').count dot
  /-- To an unfiltered subscriber of the topic the routing key is one token. -/
  single : topic = topic' → givenKey routingKey' = none → dot ∉ bytes (wireKey routingKey)

section Delivery

variable {topic topic' : String} {routingKey routingKey' : Option String}

/-- The match, on the subscriber's own tokens. -/
theorem delivers_iff : Delivers topic routingKey topic' routingKey' ↔
    List.Forall₂ Takes (ownTokens topic' routingKey') (metTokens topic routingKey routingKey') ∨
      givenKey routingKey' ≠ none ∧ ∃ front us vs, ownTokens topic' routingKey' = front ++ [tailToken] ∧
        subjectTokens topic routingKey = us ++ vs ∧ vs ≠ [] ∧ List.Forall₂ Takes front us := by
  rw [Delivers, subjectMatches, splitOn_renderSubjectPattern, splitOn_renderSubject, tokensMatch_iff,
    metTokens]
  cases givenKey routingKey' with
  | some k => simp
  | none =>
    have hlast : subjectTokens topic routingKey = (subjectTokens topic routingKey).dropLast ++
        [(subjectTokens topic routingKey).getLast (subjectTokens_ne_nil topic routingKey)] :=
      (List.dropLast_append_getLast _).symm
    constructor
    · rintro (hall | ⟨front, us, vs, hfront, -⟩)
      · rw [hlast] at hall
        exact .inl (forall₂_concat.1 hall).1
      · exact absurd (List.append_inj_right' hfront rfl) (by decide)
    · rintro (hall | ⟨hgiven, -⟩)
      · rw [hlast]
        exact .inl (forall₂_concat.2 ⟨hall, .inl rfl⟩)
      · exact absurd rfl hgiven

/-- Where no wildcard takes part, the texts agree. -/
theorem Unambiguous.readsAs (h : Unambiguous topic routingKey topic' routingKey')
    (hdelivers : Delivers topic routingKey topic' routingKey') :
    ReadsAs topic routingKey topic' routingKey' := by
  have heq : ownTokens topic' routingKey' = metTokens topic routingKey routingKey' := by
    rcases delivers_iff.1 hdelivers with hall | ⟨hgiven, front, us, vs, hown, hsubject, hvs, hfront⟩
    · exact h.literal hall
    · refine h.literal ?_
      obtain ⟨k, hk⟩ := Option.ne_none_iff_exists'.1 hgiven
      obtain rfl := h.closed hgiven front us vs hown hsubject hvs hfront
      rw [metTokens, hk, Option.elim_some, hown, hsubject]
      exact forall₂_concat.2 ⟨hfront, .inr rfl⟩
  unfold ReadsAs
  split
  · rename_i k hk
    refine splitOn_dot_injective ?_
    rw [List.splitOn_append_cons_self, List.splitOn_append_cons_self]
    simpa [ownTokens, metTokens, hk, subjectTokens] using heq.symm
  · rename_i hnone
    have hne := subjectTokens_ne_nil topic routingKey
    have hlast := dot_not_mem_of_mem_subjectTokens (List.getLast_mem hne)
    refine ⟨_, hlast, splitOn_dot_injective ?_⟩
    rw [List.splitOn_append_cons_self, List.splitOn_append_cons_self, List.splitOn_eq_singleton hlast]
    have hmet : (topicSubject topic').splitOn dot = (subjectTokens topic routingKey).dropLast := by
      simpa [ownTokens, metTokens, hnone] using heq
    rw [hmet, List.dropLast_append_getLast]
    rfl

theorem ReadsAs.delivers (h : ReadsAs topic routingKey topic' routingKey') :
    Delivers topic routingKey topic' routingKey' := by
  unfold ReadsAs at h
  rw [Delivers, bytes_renderSubject]
  split at h
  · rename_i k hk
    rw [bytes_renderSubjectPattern_some hk, h]
    exact subjectMatches_self _
  · rename_i hnone
    obtain ⟨last, hlast, h⟩ := h
    rw [bytes_renderSubjectPattern_none hnone, h]
    exact subjectMatches_star _ hlast

/-- What the subscriber asked for is its own topic and routing key. -/
theorem asked_iff (hsub : Accepted topic' routingKey') :
    (topic = topic' ∧ (givenKey routingKey' = none ∨ givenKey routingKey' = givenKey routingKey)) ↔
      topic = topic' ∧ ∀ k, givenKey routingKey' = some k → wireKey routingKey = k := by
  refine and_congr_right fun _ => ?_
  cases hk' : givenKey routingKey' with
  | none => simp
  | some k' =>
    unfold wireKey
    cases hk : givenKey routingKey with
    | none =>
      have hne := hsub.givenKey_ne
      rw [hk'] at hne
      simpa using fun h => hne (congrArg some h.symm)
    | some k => simp [eq_comm]

/-- A message of the subscriber's own topic gives its routing key back. -/
theorem recoverRoutingKey_renderSubject (hpub : Accepted topic routingKey) :
    recoverRoutingKey topic (renderSubject topic routingKey) = givenKey routingKey := by
  have hsplit : renderSubject topic routingKey =
      (notifySubjectPrefix ++ "." ++ topic ++ ".") ++ wireKey routingKey := by
    rw [renderSubject, wireKey]
  rw [recoverRoutingKey, hsplit, bytes_append _ (wireKey routingKey), stripPrefix,
    if_pos (List.prefix_append _ _), List.drop_left, Option.bind_some, fromUtf8_bytes, wireKey]
  cases hk : givenKey routingKey with
  | none => simp
  | some k =>
    obtain ⟨-, hne⟩ := Option.filter_eq_some_iff.1 hk
    have hreserved := hpub.givenKey_ne
    rw [hk] at hreserved
    simp only [Option.getD_some]
    rw [Option.filter_some, if_pos]
    simpa using ⟨by simpa using hne, fun h => hreserved (congrArg some h)⟩

/-- Where the subscriber gets what it asked for and no more, nothing else takes part
in the match. -/
theorem unambiguous_of_delivers (hiff : Delivers topic routingKey topic' routingKey' ↔
    topic = topic' ∧ ∀ k, givenKey routingKey' = some k → wireKey routingKey = k) :
    Unambiguous topic routingKey topic' routingKey' := by
  have hsingle : topic = topic' → givenKey routingKey' = none →
      dot ∉ bytes (wireKey routingKey) := by
    rintro rfl hnone
    have hdelivers := hiff.2 ⟨rfl, fun k hk => by rw [hnone] at hk; cases hk⟩
    rw [Delivers, bytes_renderSubject, bytes_renderSubjectPattern_none hnone] at hdelivers
    exact dot_not_mem_of_matches hdelivers
  -- the subscriber gets what it asked for only, so its tokens are those of the subject
  have htokens : Delivers topic routingKey topic' routingKey' →
      ownTokens topic' routingKey' = metTokens topic routingKey routingKey' := by
    intro hdelivers
    obtain ⟨rfl, hkey⟩ := hiff.1 hdelivers
    cases hk : givenKey routingKey' with
    | some k =>
      have hwire := hkey k hk
      simp [ownTokens, metTokens, hk, subjectTokens, hwire]
    | none =>
      have hone := List.splitOn_eq_singleton (hsingle rfl hk)
      simp [ownTokens, metTokens, hk, subjectTokens, hone]
  refine ⟨fun hall => htokens (delivers_iff.2 (.inl hall)),
    fun hgiven front us vs hown hsubject hvs hfront => ?_, fun hreads => ?_, hsingle⟩
  · have heq := htokens (delivers_iff.2 (.inr ⟨hgiven, front, us, vs, hown, hsubject, hvs, hfront⟩))
    obtain ⟨k, hk⟩ := Option.ne_none_iff_exists'.1 hgiven
    rw [hown, metTokens, hk, Option.elim_some, hsubject] at heq
    exact (List.append_inj_right heq hfront.length_eq).symm
  · obtain ⟨rfl, -⟩ := hiff.1 hreads.delivers
    rfl

/-- Where no dot and no wildcard takes part, the subscriber asked for what it gets. -/
theorem Unambiguous.asked (h : Unambiguous topic routingKey topic' routingKey')
    (hdelivers : Delivers topic routingKey topic' routingKey') :
    topic = topic' ∧ ∀ k, givenKey routingKey' = some k → wireKey routingKey = k := by
  have hreads := h.readsAs hdelivers
  have hcount := h.aligned hreads
  unfold ReadsAs at hreads
  split at hreads
  · rename_i k hk
    obtain ⟨htopic, hkey⟩ := append_dot_inj hcount hreads
    refine ⟨topicSubject_injective htopic, fun k' hk' => ?_⟩
    rw [hk] at hk'
    rw [← Option.some.inj hk']
    exact bytes_injective hkey
  · rename_i hnone
    obtain ⟨last, -, hreads⟩ := hreads
    obtain ⟨htopic, -⟩ := append_dot_inj hcount hreads
    exact ⟨topicSubject_injective htopic, fun k hk => by rw [hnone] at hk; cases hk⟩

/-- And it gets what it asked for. -/
theorem Unambiguous.delivers (h : Unambiguous topic routingKey topic' routingKey')
    (htopic : topic = topic') (hkey : ∀ k, givenKey routingKey' = some k → wireKey routingKey = k) :
    Delivers topic routingKey topic' routingKey' := by
  refine ReadsAs.delivers ?_
  unfold ReadsAs
  split
  · rename_i k hk
    rw [hkey k hk, htopic]
  · rename_i hnone
    exact ⟨_, h.single htopic hnone, by rw [htopic]⟩

/-- **Which messages a subscriber gets.**  The right ones, with the publisher's
routing key, exactly when no dot and no wildcard takes part in the match. -/
theorem delivery (topic : String) (routingKey : Option String) (topic' : String)
    (routingKey' : Option String) (hpub : Accepted topic routingKey)
    (hsub : Accepted topic' routingKey') :
    DeliveredRight topic routingKey topic' routingKey' ↔
      Unambiguous topic routingKey topic' routingKey' := by
  rw [DeliveredRight, asked_iff hsub]
  constructor
  · rintro ⟨hiff, -⟩
    exact unambiguous_of_delivers hiff
  · intro h
    refine ⟨⟨h.asked, fun ⟨htopic, hkey⟩ => h.delivers htopic hkey⟩, fun hdelivers => ?_⟩
    obtain ⟨rfl, -⟩ := h.asked hdelivers
    exact recoverRoutingKey_renderSubject hpub

/-- A key of one token, to a subscriber of it. -/
theorem delivery_placed : DeliveredRight "orders" (some "placed") "orders" (some "placed") := by
  refine (delivery _ _ _ _ ⟨by decide, rfl⟩ ⟨by decide, rfl⟩).2 ⟨?_, ?_, ?_, ?_⟩
  · exact fun _ => rfl
  · intro _ front us vs hown
    have hlast : (ownTokens "orders" (some "placed")).getLast? = some (bytes "placed") := by
      decide +kernel
    rw [hown, List.getLast?_concat] at hlast
    exact absurd (Option.some.inj hlast) (by decide)
  · exact fun _ => rfl
  · intro _ hnone
    exact absurd hnone (by decide)

/-- An unfiltered subscriber of the topic misses a message whose routing key has
a dot. -/
theorem delivery_dotted : ∃ topic routingKey topic' routingKey', Accepted topic routingKey ∧
    Accepted topic' routingKey' ∧ ¬ DeliveredRight topic routingKey topic' routingKey' := by
  refine ⟨"orders", some "eu.placed", "orders", none, ⟨by decide, rfl⟩, ⟨by decide, rfl⟩, ?_⟩
  rintro ⟨hiff, -⟩
  have hmissed : subjectMatches (bytes (renderSubjectPattern "orders" none))
      (bytes (renderSubject "orders" (some "eu.placed"))) = false := by decide +kernel
  have hasked := hiff.2 ⟨rfl, .inl rfl⟩
  rw [Delivers, hmissed] at hasked
  cases hasked

end Delivery

end ClusterNats
