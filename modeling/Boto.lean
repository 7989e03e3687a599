import Boto.S3.KeyFile
import Boto.Glacier.Agreement
import Boto.Glacier.Concurrent.Upload
import Boto.Glacier.Resume.Correctness
import Boto.Numerals
import Boto.Glacier.Writer.Partition
import Boto.Glacier.Writer.FailedParts
import Boto.Glacier.Writer.PartOrder
import Boto.S3.KeyFileRefinement
import Boto.Python
import Boto.S3.SendFile
import Boto.S3.SentBytes
import Boto.S3.SendFileRetries
import Boto.GS.ResumableUpload
import Boto.GS.Put
import Boto.GS.UploadRuns
import Boto.DynamoDB2.ResultSet
import Boto.DynamoDB2.BatchGet
import Boto.DynamoDB2.Pagination
import Boto.DynamoDB2.BatchConservation
import Boto.DynamoDB2.BatchOrder
import Boto.DynamoDB2.Item
import Boto.DynamoDB2.ChangeTracking
import Boto.DynamoDB2.PartialSave
import Boto.DynamoDB2.ConditionalSaves
import Boto.Handler
import Boto.Support.PercentEncoding
import Boto.ResultSet
import Boto.Support.Listing
import Boto.S3.BucketListing
import Boto.S3.ListingCompleteness
import Boto.Support.XmlParser
import Boto.Support.XmlPlain
import Boto.LRUCache
import Boto.LRURefinement
import Boto.SDB.Converter
import Boto.SDB.IntegerOrder
import Boto.Auth.Request
import Boto.Auth.SigV4
import Boto.Support.Base64
import Boto.Support.Urls
import Boto.Auth.S3SigV4
import Boto.Auth.HeaderOrder
import Boto.S3.CallingFormat
import Boto.S3.SignedPath
import Boto.Auth.QueryOrder
import Boto.Support.MarkCount
import Boto.Auth.SignedQuery
import Boto.Auth.S3SignedQuery
import Boto.SDB.Sequence
import Boto.Connection.Mexe
import Boto.Connection.PoolEndpoints
import Boto.Auth.CanonicalString
import Boto.Auth.QuerySignature
import Boto.Auth.Retries
import Boto.Auth.SigV4Retries
import Boto.Auth.AuthorizeTwice
import Boto.EC2.SecurityGroup
import Boto.EC2.CopyToRegion
import Boto.DynamoDB.Layer2
import Boto.DynamoDB.BatchRequests
import Boto.DynamoDB.Item
import Boto.DynamoDB.ItemClients
import Boto.DynamoDB.TableGenerator
import Boto.DynamoDB.TablePages
import Boto.DynamoDB.TableIterations
import Boto.Route53.Iterations
import Boto.CloudSearch2.Query
import Boto.CloudSearch2.SameQuery
import Boto.Support.BlockWrites
import Boto.Support.WorkerPool
import Boto.Glacier.Download.Model
import Boto.Glacier.Download.JobRuns
import Boto.Glacier.Download.WorkerRuns
import Boto.Glacier.PartSizes
import Boto.S3.Callbacks
import Boto.GS.RetryPolicy
import Boto.Provider
import Boto.ProviderSources
import Boto.Auth.CredentialReads
import Boto.Auth.CredentialGenerations
import Boto.EC2.LocalRules
import Boto.HandlerTrees
import Boto.DynamoDB2.FilterConditions
import Boto.DynamoDB2.QueryCount
import Boto.DynamoDB2.Fields
import Boto.DynamoDB2.Introspection
import Boto.SDB.SequenceGenerator
import Boto.Connection.PoolRuns
import Boto.Connection.RetryEnds
import Boto.S3.DeleteKeys
import Boto.SDB.FloatText
import Boto.SDB.FloatOrder
import Boto.S3.UserMetadata
import Boto.S3.RemoteMetadata
import Boto.Support.XmlTokens
import Boto.Support.XmlWeight
import Boto.HandlerWeight
import Boto.S3.Cors
import Boto.S3.CorsRoundTrip
import Boto.S3.Tagging
import Boto.Auth.S3Region
import Boto.CloudSearch.Paging
import Boto.ComputeHash
import Boto.SDB.SelectPaging
import Boto.SDB.Item
import Boto.SDB.ItemLoads
import Boto.Route53.Record
import Boto.Route53.RecordXml
import Boto.Route53.RecordRoundTrip
import Boto.Route53.ResourceRecordSets
import Boto.Route53.FindRecords
import Boto.Support.Json
import Boto.Support.JsonWeight
import Boto.Support.JsonPlain
import Boto.S3.PostForms
import Boto.S3.PresignedUrl
import Boto.S3.PresignedRequests
import Boto.S3.SignedUrl
import Boto.S3.SignedUrlHeaders
import Boto.S3.SignedUrlQuery
import Boto.S3.SignedUrls
import Boto.Support.JsonDumps
import Boto.CloudSearch2.Commits
import Boto.CloudFront.SignedUrl
import Boto.CloudFront.Grants
import Boto.Connection.CertHosts
import Boto.S3.Multipart
import Boto.S3.PartListing
import Boto.SQS.Message
import Boto.SQS.Transparency
import Boto.SQS.SavedQueue
import Boto.Connection.GetPath
import Boto.StorageUri
import Boto.ECS.Items
import Boto.RegionInfo
import Boto.NumberedParams
import Boto.SQS.Batch
import Boto.SQS.WrittenBatch
import Boto.EC2.BlockDevices
import Boto.JsonResponse
import Boto.MWS.Response
import Boto.SDB.XmlManager
import Boto.S3.AnnouncedUpload
import Boto.GS.Cors
import Boto.GS.CorsRoundTrip
import Boto.GS.Lifecycle
import Boto.S3.ResumableDownload
