import ClientGen.Integration

/-!
# Auth schemes that come with the generator

For each scheme the function that makes an auth option of it: API keys, bearer tokens, and
signatures of version four.
-/

namespace ClientGen.Package

open Plan

/-- The function that makes an option of a scheme, with what it does first and the properties it
hands to the signer. -/
def optionFactory (name : String) (scheme : ShapeId) (first : Plan Step Unit)
    (signerProperties : String) : Plan Step Unit :=
  define .function name "(auth_params: $T) -> $T | None:"
    [Library.authParams, Library.authOption] do
      first
      block "return $T(" [Library.authOption] do
        line "scheme_id=$S," [scheme.text]
        line "identity_properties=\x7b\x7d," []
        line "signer_properties=$L," [signerProperties]
      line ")" []

/-- The value of a trait of the service, read by `read`. -/
def serviceTrait (service : Shape) (id : ShapeId) (read : Json → Option α) : Except Error α :=
  match service.traits.get? id with
  | none => .error (.invalidModel (.missingTrait service.id id))
  | some value =>
    match read value with
    | some a => .ok a
    | none => .error (.model (.traitValue id "unexpected value"))

/-- Where an API key goes. -/
structure ApiKeyTrait where
  name : String
  location : String
  scheme : Option String

def apiKeyTrait? (value : Json) : Option ApiKeyTrait := do
  let fields ← value.fields ["name", "in", "scheme"]
  let name ← (← fields.getD 0 none).text?
  let location ← (← fields.getD 1 none).text?
  let scheme ← match fields.getD 2 none with
    | none => some none
    | some .null => some none
    | some v => v.text?.map some
  return { name, location, scheme }

def apiKeyId : ShapeId := .prelude "httpApiKeyAuth"

def apiKeyScheme : AuthScheme where
  id := apiKeyId
  factoryName := "_create_http_api_key_auth_option"
  factory := fun cx => do
    let key ← serviceTrait cx.service apiKeyId apiKeyTrait?
    let scheme := (key.scheme.map Text.quote).getD "None"
    optionFactory "_create_http_api_key_auth_option" apiKeyId (Plan.pure ())
      ("\x7b\"name\": " ++ Text.quote key.name ++ ", \"location\": " ++ Text.quote key.location ++
        ", \"scheme\": " ++ scheme ++ "\x7d")
  symbol := some (Library.packaged "smithy_http.aio.auth.apikey" "ApiKeyAuthScheme")

def bearerId : ShapeId := .prelude "httpBearerAuth"

def bearerScheme : AuthScheme where
  id := bearerId
  factoryName := "_create_http_bearer_auth_option"
  factory := fun _ =>
    optionFactory "_create_http_bearer_auth_option" bearerId (Plan.pure ()) "\x7b\x7d"
  symbol := some (Library.packaged "smithy_http.aio.auth.bearer" "BearerAuthScheme")

def sigv4Id : ShapeId := { ns := "aws.auth", name := "sigv4" }

def sigv4Trait? (value : Json) : Option String := do
  let fields ← value.fields ["name"]
  (← fields.getD 0 none).text?

/-- Signatures of version four. They need a region; without one there is no option. -/
def sigv4Scheme : AuthScheme where
  id := sigv4Id
  factoryName := "_create_sigv4_auth_option"
  factory := fun cx => do
    let name ← serviceTrait cx.service sigv4Id sigv4Trait?
    let first : Plan Step Unit := do
      line "region = getattr(auth_params.config, \"region\", None)" []
      block "if region is None:" [] (line "return None" [])
    optionFactory "_create_sigv4_auth_option" sigv4Id first
      ("\x7b\"service\": " ++ Text.quote name ++ ", \"region\": region\x7d")
  symbol := some (Library.packaged "smithy_aws_core.auth.sigv4" "SigV4AuthScheme")

end ClientGen.Package
