import DocWatch.Net.Transport
import DocWatch.Net.Url

/-!
# Without a network

Where there is no network, no exchange comes about: names are not resolved, and
addresses in numbers are not reached. What is wrong with the address itself is
noticed before that.
-/

namespace DocWatch.Net

/-- Whether a host is found without asking for its name: it is written in
numbers, or it is this machine. -/
def isNumericHost (host : List Char) : Bool :=
  host.head? = some '[' || host = "localhost".toList || host.all fun c => c.isDigit || c = '.'

/-- Why no exchange with an address comes about. -/
def unreachableCauses (url : String) : List String :=
  let lost (why : List String) : List String :=
    ["error sending request for url (" ++ url ++ ")", "client error (Connect)"] ++ why
  match Url.parse url with
  | .error fault => ["builder error", fault.message]
  | .ok ⟨scheme, some host, _⟩ =>
      if scheme ≠ "http".toList ∧ scheme ≠ "https".toList then
        ["builder error for url (" ++ url ++ ")", "URL scheme is not allowed"]
      else if isNumericHost host then
        lost ["tcp connect error", "Network is unreachable (os error 101)"]
      else
        lost ["dns error",
          "failed to lookup address information: Temporary failure in name resolution"]
  | .ok ⟨_, none, _⟩ => ["builder error for url (" ++ url ++ ")", "URL scheme is not allowed"]

/-- The transport where there is no network. -/
def unreachable : Transport :=
  fun r => .failed ⟨unreachableCauses r.url, false⟩

end DocWatch.Net
