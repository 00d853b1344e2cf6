import ClientGen.Package.AuthFactories
import ClientGen.Package.HttpTransfer

/-!
# Integrations that come with the generator

They are chosen by name in the settings, except `http-auth`, which always takes part.
-/

namespace ClientGen.Package

def httpAuth : Integration where
  name := "http-auth"
  plugins := [{ scheme := some apiKeyScheme }, { scheme := some bearerScheme }]

def restJson : HttpProtocol where
  id := { ns := "aws.protocols", name := "restJson1" }
  routing := .rest
  contentType := "application/json"
  codec := Library.packaged Library.jsonPackage "JSONCodec"

def rpcCbor : HttpProtocol where
  id := { ns := "smithy.protocols", name := "rpcv2Cbor" }
  routing := .rpc
  contentType := "application/cbor"
  codec := Library.packaged "smithy_cbor" "CBORCodec"
  header := some ("smithy-protocol", "rpc-v2-cbor")

def restJsonIntegration : Integration where
  name := "rest-json"
  protocols := [restJson.protocol]

def rpcCborIntegration : Integration where
  name := "rpcv2-cbor"
  protocols := [rpcCbor.protocol]

def sigv4Integration : Integration where
  name := "sigv4"
  plugins := [{
    scheme := some sigv4Scheme
    properties := [{
      name := "region"
      type := .builtin "str"
      documentation :=
        "The AWS region to connect to. Requests are not signed with SigV4 without one." }]
    appliesTo := fun service => service.traits.has sigv4Id }]

def available : List Integration :=
  [httpAuth, restJsonIntegration, rpcCborIntegration, sigv4Integration]

/-- The integrations that always take part. -/
def always : List String := ["http-auth"]

def findIntegration (name : String) : Except Error Integration :=
  match available.find? fun i => i.name == name with
  | some i => .ok i
  | none => .error (.settings (.unknownIntegration name))

/-- The integrations that settings ask for, in the order they are applied. -/
def integrationsFor (settings : Settings) : Except Error (List Integration) := do
  let found ← (always ++ settings.integrations).eraseDups.mapM findIntegration
  return Integration.sort found

end ClientGen.Package
