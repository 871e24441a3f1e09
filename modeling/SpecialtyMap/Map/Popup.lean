import SpecialtyMap.DB.Record
import SpecialtyMap.Text.Url

/-!
# The popup of a pin

`SemiModalViewController.viewDidLoad` shows the texts `AppDelegate` holds for the tapped pin and
loads a web search for them. The search URL is assembled from the texts first and escaped as a whole
afterwards, with the letters `.urlQueryAllowed` keeps. It is valid whatever the texts are
(`viewDidLoad_ok`), and its query is read back as the one parameter `q` that was meant exactly when
neither text contains an ampersand or a plus, which the escaping lets through
(`query_readBack_iff`).
-/

namespace SpecialtyMap.Map
open SpecialtyMap.DB SpecialtyMap.Text

/-- The texts of the tapped pin, `AppDelegate`. -/
structure AppDelegate where
  distanceValue : Option String := none
  nameValue : Option String := none
  streetAddrValue : Option String := none
deriving DecidableEq

def urlQueryAllowed (c : Char) : Bool :=
  c.isAlphanum || "-._~!$&'()*+,;=:@/?".toList.contains c

def addingPercentEncoding (text : String) : String :=
  String.ofList (escape urlQueryAllowed text.toList)

/-- What the popup shows and loads. -/
structure Popup where
  lblTitle : Option String
  lblStreetAddr : Option String
  lblDistance : Option String
  request : URL
deriving DecidableEq

def SemiModalViewController.viewDidLoad (delegate : AppDelegate) : Except Trap Popup := do
  let url := "https://www.google.co.jp"
  let url := url ++ "/search?q="
  let url := url ++ (← unwrap delegate.streetAddrValue)
  let url := url ++ "+"
  let url := url ++ (← unwrap delegate.nameValue)
  let encodeUrl := addingPercentEncoding url
  let webUrl ← unwrap (URL.ofString? encodeUrl)
  return {
    lblTitle := delegate.nameValue
    lblStreetAddr := delegate.streetAddrValue
    lblDistance := delegate.distanceValue
    request := webUrl
  }

/-- The request is a search whose query is the one parameter `q` with the two texts. -/
def Popup.SearchesFor (popup : Popup) (address name : String) : Prop :=
  popup.request.scheme = some "https" ∧
  popup.request.host = some "www.google.co.jp" ∧
  popup.request.path = "/search" ∧
  popup.request.fragment = none ∧
  popup.request.query.bind formParse = some [("q", address ++ " " ++ name)]

lemma urlQueryAllowed_percent : urlQueryAllowed '%' = false := by decide

lemma urlQueryAllowed_sign : urlQueryAllowed '#' = false := by decide

lemma urlQueryAllowed_uri (c : Char) (ok : urlQueryAllowed c) : uriChar c := by
  simp only [urlQueryAllowed, uriChar, Bool.or_eq_true] at ok ⊢
  rcases ok with ok | ok
  · exact .inl ok
  · simp at ok ⊢
    tauto

def searchText (address name : String) : List Char := address.toList ++ '+' :: name.toList

def searchPage : List Char := "https://www.google.co.jp/search".toList

lemma searchPage_components : components searchPage =
    { scheme := some "https", authority := some "www.google.co.jp", path := "/search",
      query := none, fragment := none } := by
  decide +kernel

lemma searchPage_allowed : searchPage.all urlQueryAllowed := by decide +kernel

lemma searchPage_mark : '?' ∉ searchPage := by decide +kernel

lemma searchPage_sign : '#' ∉ searchPage := by decide +kernel

lemma searchPage_toList : "https://www.google.co.jp".toList ++ "/search?q=".toList =
    searchPage ++ ['?', 'q', '='] := by
  decide +kernel

lemma url_toList (address name : String) :
    ("https://www.google.co.jp" ++ "/search?q=" ++ address ++ "+" ++ name).toList =
      searchPage ++ '?' :: 'q' :: '=' :: searchText address name := by
  rw [String.toList_append, String.toList_append, String.toList_append, String.toList_append,
    searchPage_toList]
  simp [searchText]

lemma encodeUrl_toList (address name : String) :
    (addingPercentEncoding
      ("https://www.google.co.jp" ++ "/search?q=" ++ address ++ "+" ++ name)).toList =
      searchPage ++ '?' :: 'q' :: '=' :: escape urlQueryAllowed (searchText address name) := by
  have page : escape urlQueryAllowed searchPage = searchPage :=
    escape_allowed (List.all_eq_true.mp searchPage_allowed)
  have mark : urlQueryAllowed '?' := by decide
  have q : urlQueryAllowed 'q' := by decide
  have equals : urlQueryAllowed '=' := by decide
  rw [addingPercentEncoding, String.toList_ofList, url_toList, escape_append, page, escape_cons,
    escape_cons, escape_cons, escapeChar_allowed mark, escapeChar_allowed q,
    escapeChar_allowed equals]
  rfl

def searchRequest (address name : String) : URL where
  scheme := some "https"
  authority := some "www.google.co.jp"
  path := "/search"
  query := some ('q' :: '=' :: escape urlQueryAllowed (searchText address name))
  fragment := none

lemma searchRequest_host (address name : String) :
    (searchRequest address name).host = some "www.google.co.jp" := by
  have host : authorityHost "www.google.co.jp" = "www.google.co.jp" := by decide +kernel
  exact congrArg some host

/-- `URL(string:)` accepts the escaped text and finds the search request in it. -/
lemma ofString_encodeUrl (address name : String) :
    URL.ofString? (addingPercentEncoding
      ("https://www.google.co.jp" ++ "/search?q=" ++ address ++ "+" ++ name)) =
      some (searchRequest address name) := by
  have valid : wellFormed (addingPercentEncoding
      ("https://www.google.co.jp" ++ "/search?q=" ++ address ++ "+" ++ name)).toList := by
    rw [addingPercentEncoding, String.toList_ofList]
    exact wellFormed_escape urlQueryAllowed_percent urlQueryAllowed_uri _
  have nonempty : addingPercentEncoding
      ("https://www.google.co.jp" ++ "/search?q=" ++ address ++ "+" ++ name) ≠ "" := by
    intro e
    have letters := congrArg String.toList e
    rw [encodeUrl_toList] at letters
    simp at letters
  have sign : '#' ∉ 'q' :: '=' :: escape urlQueryAllowed (searchText address name) := by
    intro mem
    simp only [List.mem_cons, Char.reduceEq, false_or] at mem
    rcases mem_escape mem with ⟨-, ok⟩ | e | e
    · rw [urlQueryAllowed_sign] at ok
      cases ok
    · revert e
      decide
    · revert e
      decide
  rw [URL.ofString?, if_pos ⟨nonempty, valid⟩, encodeUrl_toList,
    components_query searchPage_mark searchPage_sign sign, searchPage_components]
  rfl

/-- With both texts present the popup opens, whatever the texts are. -/
theorem viewDidLoad_ok (distance : Option String) (address name : String) :
    SemiModalViewController.viewDidLoad ⟨distance, some name, some address⟩ =
      .ok ⟨some name, some address, distance, searchRequest address name⟩ := by
  unfold SemiModalViewController.viewDidLoad
  simp only [unwrap, bind, Except.bind, ofString_encodeUrl]
  rfl

/-- The popup opens exactly when both texts are present. -/
theorem viewDidLoad_ok_iff (delegate : AppDelegate) :
    (∃ popup, SemiModalViewController.viewDidLoad delegate = .ok popup) ↔
      delegate.streetAddrValue ≠ none ∧ delegate.nameValue ≠ none := by
  obtain ⟨distance, name, address⟩ := delegate
  cases address with
  | none => simp [SemiModalViewController.viewDidLoad, unwrap, bind, Except.bind]
  | some address =>
    cases name with
    | none => simp [SemiModalViewController.viewDidLoad, unwrap, bind, Except.bind]
    | some name => simp [viewDidLoad_ok]

lemma parameter_plain : ∀ c ∈ ['q'], c.isAlphanum := List.forall_mem_singleton.mpr (by decide)

lemma formParse_searchRequest {address name : String} (free : '&' ∉ searchText address name) :
    formParse ('q' :: '=' :: escape urlQueryAllowed (searchText address name)) =
      some [("q", String.ofList (readBack urlQueryAllowed (searchText address name)))] :=
  formParse_escape urlQueryAllowed_percent parameter_plain free

lemma readBack_searchText (address name : String) :
    readBack urlQueryAllowed (searchText address name) =
      readBack urlQueryAllowed address.toList ++ ' ' :: readBack urlQueryAllowed name.toList := by
  have plus : (if urlQueryAllowed '+' then plusToSpace '+' else '+') = ' ' := by decide
  rw [searchText, readBack_append]
  simp [readBack, plus]

lemma readBack_searchText_iff (address name : String) :
    String.ofList (readBack urlQueryAllowed (searchText address name)) = address ++ " " ++ name ↔
      '+' ∉ address.toList ∧ '+' ∉ name.toList := by
  have plus : urlQueryAllowed '+' := by decide
  have texts : (address ++ " " ++ name).toList = address.toList ++ ' ' :: name.toList := by simp
  have free (text : List Char) : readBack urlQueryAllowed text = text ↔ '+' ∉ text := by
    rw [readBack_eq_self_iff]
    exact ⟨fun h => h plus, fun h _ => h⟩
  rw [← String.toList_inj, String.toList_ofList, texts, readBack_searchText, ← free, ← free]
  constructor
  · intro e
    obtain ⟨front, rest⟩ := List.append_inj e (readBack_length _)
    exact ⟨front, (List.cons.inj rest).2⟩
  · rintro ⟨front, rest⟩
    rw [front, rest]

lemma formParse_ne_of_amp {address name : String} (mem : '&' ∈ searchText address name) :
    formParse ('q' :: '=' :: escape urlQueryAllowed (searchText address name)) ≠
      some [("q", address ++ " " ++ name)] := by
  intro parse
  obtain ⟨first, others, e, free⟩ :=
    formParse_escape_amp urlQueryAllowed_percent (by decide) parameter_plain mem parse
  injection e with e _
  injection e with _ value
  rw [← value] at free
  apply free
  simp only [searchText, List.mem_append, List.mem_cons, Char.reduceEq, false_or] at mem
  simp only [String.toList_append, List.mem_append]
  tauto

lemma not_searches_of_amp {distance : Option String} {address name : String}
    (mem : '&' ∈ searchText address name) :
    ¬ ∃ popup, SemiModalViewController.viewDidLoad ⟨distance, some name, some address⟩ = .ok popup ∧
      popup.SearchesFor address name := by
  rintro ⟨popup, loaded, -, -, -, -, query⟩
  rw [viewDidLoad_ok] at loaded
  injection loaded with e
  subst e
  exact formParse_ne_of_amp mem query

/-- The popup searches for the two texts exactly when neither contains an ampersand or a plus. -/
theorem query_readBack_iff (distance : Option String) (address name : String) :
    (∃ popup, SemiModalViewController.viewDidLoad ⟨distance, some name, some address⟩ = .ok popup ∧
      popup.SearchesFor address name) ↔
      ('&' ∉ address.toList ∧ '+' ∉ address.toList) ∧ ('&' ∉ name.toList ∧ '+' ∉ name.toList) := by
  have amp : '&' ∉ searchText address name ↔ '&' ∉ address.toList ∧ '&' ∉ name.toList := by
    simp [searchText]
  constructor
  · intro searches
    have free : '&' ∉ searchText address name := fun mem => not_searches_of_amp mem searches
    -- without ampersands the query is one parameter, which is right if nothing was a plus
    obtain ⟨popup, loaded, -, -, -, -, query⟩ := searches
    rw [viewDidLoad_ok] at loaded
    injection loaded with e
    subst e
    have read := formParse_searchRequest free
    simp only [searchRequest, Option.bind_some] at query
    rw [query] at read
    have value : address ++ " " ++ name =
        String.ofList (readBack urlQueryAllowed (searchText address name)) := by
      simpa using read
    obtain ⟨plusA, plusN⟩ := (readBack_searchText_iff address name).mp value.symm
    obtain ⟨ampA, ampN⟩ := amp.mp free
    exact ⟨⟨ampA, plusA⟩, ⟨ampN, plusN⟩⟩
  · rintro ⟨⟨ampA, plusA⟩, ⟨ampN, plusN⟩⟩
    refine ⟨_, viewDidLoad_ok distance address name, rfl, searchRequest_host _ _, rfl, rfl, ?_⟩
    have read := formParse_searchRequest (amp.mpr ⟨ampA, ampN⟩)
    rw [(readBack_searchText_iff address name).mpr ⟨plusA, plusN⟩] at read
    exact read

/-- The name of a shop with an ampersand is cut off at it. -/
theorem query_readBack_fails :
    ¬ ∃ popup, SemiModalViewController.viewDidLoad
        ⟨none, some "パン&カフェ", some "東京都 荒川区 西尾久 2-3-6"⟩ = .ok popup ∧
      popup.SearchesFor "東京都 荒川区 西尾久 2-3-6" "パン&カフェ" :=
  not_searches_of_amp (by decide +kernel)

end SpecialtyMap.Map
