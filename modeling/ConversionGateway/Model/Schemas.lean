import ConversionGateway.Model.Tables

/-! # Request schemas

Each CRM's payload as it arrives, validated in pydantic's lax mode: every field
is tried and all errors are collected, with the key that was read as location.
-/
namespace ConversionGateway

/-- Location and type of a validation error; the input value is not kept. -/
structure ErrorItem where
  loc : List String
  type : String
deriving DecidableEq, Repr

inductive Validated (α : Type)
  | valid (value : α)
  | invalid (errors : List ErrorItem)

namespace Validated
variable {α β : Type}

def fail (type : String) : Validated α := .invalid [⟨[],type⟩]

def map (f : α → β) : Validated α → Validated β
  | valid a => valid (f a)
  | invalid errors => invalid errors

/-- Combine two fields; if both fail, the errors of both are kept. -/
def and (f : Validated (α → β)) (x : Validated α) : Validated β :=
  match f, x with
  | valid f, valid x => valid (f x)
  | valid _, invalid e => invalid e
  | invalid e, valid _ => invalid e
  | invalid e, invalid e' => invalid (e ++ e')

/-- The errors of a value read under `key`. -/
def under (key : String) : Validated α → Validated α
  | valid a => valid a
  | invalid errors => invalid (errors.map fun e => { e with loc := key :: e.loc })

end Validated

section Fields
variable {α : Type}

/-- The value under the first of the keys that is there: the alias, then the name. -/
def findField (fields : List (String × Json)) (keys : List String) : Option (String × Json) :=
  keys.findSome? fun k => (fields.lookup k).map fun v => (k,v)

def required (read : Json → Validated α) (fields : List (String × Json)) (keys : List String) :
    Validated α :=
  match findField fields keys with
  | none => (Validated.fail "missing").under (keys.headD "")
  | some (key,value) => (read value).under key

/-- `T | None = None` -/
def optional (read : Json → Validated α) (fields : List (String × Json)) (keys : List String) :
    Validated (Option α) :=
  match findField fields keys with
  | none => .valid none
  | some (_,.null) => .valid none
  | some (key,value) => ((read value).map some).under key

end Fields

section Types
variable (rt : Runtime)

def readStr (j : Json) : Validated PyText :=
  match j with
  | .str s => .valid (.text s)
  | .surrogates points => .valid (.surrogates points)
  | _ => Validated.fail "string_type"

/-- `str` with `min_length=1` -/
def readNonEmpty (j : Json) : Validated String :=
  match j with
  | .str s => if s = "" then Validated.fail "string_too_short" else .valid s
  | .surrogates _ => Validated.fail "string_unicode"
  | _ => Validated.fail "string_type"

/-- An integral float is read as an `i64`, whose two bounds are refused as well. -/
def intOfFloat (n : ℤ) : Validated ℤ :=
  if -2 ^ 63 < n ∧ n < 2 ^ 63 then .valid n else Validated.fail "int_parsing_size"

def readInt (j : Json) : Validated ℤ :=
  match j with
  | .int i => .valid i
  | .bool b => .valid (if b then 1 else 0)
  | .float d =>
    if 0 ≤ d.exponent then intOfFloat (d.mantissa * 10 ^ d.exponent.toNat)
    else if d.mantissa % 10 ^ (-d.exponent).toNat = 0 then intOfFloat (d.mantissa / 10 ^ (-d.exponent).toNat)
    else Validated.fail "int_from_float"
  | .nonfinite _ => Validated.fail "finite_number"
  | .str s =>
    match rt.intOfString s with
    | .ok i => .valid i
    | .error type => Validated.fail type
  | .surrogates _ => Validated.fail "string_unicode"
  | _ => Validated.fail "int_type"

/-- `int` with `ge=0` -/
def readNat (j : Json) : Validated ℕ :=
  match readInt rt j with
  | .valid i => if 0 ≤ i then .valid i.toNat else Validated.fail "greater_than_equal"
  | .invalid errors => .invalid errors

def readConsent (j : Json) : Validated ConsentStatus :=
  match j with
  | .str "GRANTED" => .valid .granted
  | .str "DENIED" => .valid .denied
  | .str "UNSPECIFIED" => .valid .unspecified
  | .surrogates _ => Validated.fail "string_unicode"
  | _ => Validated.fail "enum"

def readDatetime (j : Json) : Validated DateTime :=
  match rt.datetimeOf j with
  | .ok t => .valid t
  | .error type => Validated.fail type

def readDecimal (j : Json) : Validated Decimal :=
  match rt.decimalOf j with
  | .ok d => .valid d
  | .error type => Validated.fail type

end Types

structure SalesforceLead where
  id : PyText
  email : Option PyText
  phone : Option PyText
  firstName : Option PyText
  lastName : Option PyText
  street : Option PyText
  city : Option PyText
  stateCode : Option PyText
  postalCode : Option PyText
  countryCode : Option PyText
  gclid : Option PyText
  consentAdUserData : Option ConsentStatus
  consentAdPersonalization : Option ConsentStatus

structure SalesforceWebhook where
  eventId : String
  eventTime : DateTime
  conversionAction : String
  amount : Option Decimal
  currency : Option PyText
  lead : SalesforceLead

structure HubSpotProperties where
  email : Option PyText
  phone : Option PyText
  firstname : Option PyText
  lastname : Option PyText
  address : Option PyText
  city : Option PyText
  state : Option PyText
  zip : Option PyText
  country : Option PyText
  hsGoogleClickId : Option PyText
  amount : Option Decimal
  dealCurrencyCode : Option PyText
  adUserDataConsent : Option ConsentStatus
  adPersonalizationConsent : Option ConsentStatus

structure HubSpotWebhook where
  eventId : ℤ
  objectId : ℤ
  /-- Epoch milliseconds. -/
  occurredAt : ℕ
  conversionAction : String
  properties : HubSpotProperties

def SalesforceLead.modelValidate (payload : Json) : Validated SalesforceLead :=
  match payload with
  | .obj fields =>
    (Validated.valid SalesforceLead.mk)
      |>.and (required readStr fields ["Id","id"])
      |>.and (optional readStr fields ["Email","email"])
      |>.and (optional readStr fields ["Phone","phone"])
      |>.and (optional readStr fields ["FirstName","first_name"])
      |>.and (optional readStr fields ["LastName","last_name"])
      |>.and (optional readStr fields ["Street","street"])
      |>.and (optional readStr fields ["City","city"])
      |>.and (optional readStr fields ["StateCode","state_code"])
      |>.and (optional readStr fields ["PostalCode","postal_code"])
      |>.and (optional readStr fields ["CountryCode","country_code"])
      |>.and (optional readStr fields ["GCLID__c","gclid"])
      |>.and (optional readConsent fields ["Consent_Ad_User_Data__c","consent_ad_user_data"])
      |>.and (optional readConsent fields ["Consent_Ad_Personalization__c","consent_ad_personalization"])
  | _ => Validated.fail "model_type"

def SalesforceWebhook.modelValidate (rt : Runtime) (payload : Json) : Validated SalesforceWebhook :=
  match payload with
  | .obj fields =>
    (Validated.valid SalesforceWebhook.mk)
      |>.and (required readNonEmpty fields ["EventId","event_id"])
      |>.and (required (readDatetime rt) fields ["EventTime","event_time"])
      |>.and (required readNonEmpty fields ["Conversion_Action__c","conversion_action"])
      |>.and (optional (readDecimal rt) fields ["Amount","amount"])
      |>.and (optional readStr fields ["CurrencyIsoCode","currency"])
      |>.and (required SalesforceLead.modelValidate fields ["Lead","lead"])
  | _ => Validated.fail "model_type"

def HubSpotProperties.modelValidate (rt : Runtime) (payload : Json) : Validated HubSpotProperties :=
  match payload with
  | .obj fields =>
    (Validated.valid HubSpotProperties.mk)
      |>.and (optional readStr fields ["email"])
      |>.and (optional readStr fields ["phone"])
      |>.and (optional readStr fields ["firstname"])
      |>.and (optional readStr fields ["lastname"])
      |>.and (optional readStr fields ["address"])
      |>.and (optional readStr fields ["city"])
      |>.and (optional readStr fields ["state"])
      |>.and (optional readStr fields ["zip"])
      |>.and (optional readStr fields ["country"])
      |>.and (optional readStr fields ["hs_google_click_id"])
      |>.and (optional (readDecimal rt) fields ["amount"])
      |>.and (optional readStr fields ["deal_currency_code"])
      |>.and (optional readConsent fields ["ad_user_data_consent"])
      |>.and (optional readConsent fields ["ad_personalization_consent"])
  | _ => Validated.fail "model_type"

def HubSpotWebhook.modelValidate (rt : Runtime) (payload : Json) : Validated HubSpotWebhook :=
  match payload with
  | .obj fields =>
    (Validated.valid HubSpotWebhook.mk)
      |>.and (required (readInt rt) fields ["eventId","event_id"])
      |>.and (required (readInt rt) fields ["objectId","object_id"])
      |>.and (required (readNat rt) fields ["occurredAt","occurred_at"])
      |>.and (required readNonEmpty fields ["conversionAction","conversion_action"])
      |>.and (required (HubSpotProperties.modelValidate rt) fields ["properties"])
  | _ => Validated.fail "model_type"

end ConversionGateway
